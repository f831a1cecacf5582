import NamedCaptures.Problem

/-!
# The text of a problem

The text that shows a problem tells the problem, although all that stands between its parts may
stand in the pattern, too. It is read from the front: no sentence begins another one, so the
sentence tells the kind; a colon follows the digits of the column; and the column tells how many
characters stand before the mark. The main statement is `text_tells_problem`.
-/

namespace NamedCaptures

namespace Problem

/-- All kinds of problems. -/
def Kind.all : List Kind :=
  [.strayCloser, .unclosedGroup, .bareBackslash, .propertyWithoutBrace, .unclosedProperty,
    .badControlLetter, .badHexEscape, .codePointWithoutDigits, .unclosedCodePoint,
    .codePointTooLarge, .badUnicodeEscape, .groupNameWithoutOpening, .unclosedGroupName,
    .emptyGroupName, .badGroupNameEscape, .quantifierWithoutDigits, .unclosedQuantifier,
    .quantifierOutOfOrder, .unclosedClass, .bareBackslashInClass, .nothingToRepeat]

theorem Kind.mem_all (k : Kind) : k ∈ all := by
  cases k <;> decide

/-- What is spelled can be told from the front of a text, whatever follows it. -/
def SelfDelimiting {α : Type} (spell : α → List Char) : Prop :=
  ∀ a b u v, spell a ++ u = spell b ++ v → a = b ∧ u = v

namespace SelfDelimiting

variable {α β : Type} {spell : α → List Char} {spell' : β → List Char}

/-- Two spellings, one behind the other. -/
theorem append (h : SelfDelimiting spell) (h' : SelfDelimiting spell') :
    SelfDelimiting fun x : α × β => spell x.1 ++ spell' x.2 := by
  rintro ⟨a, b⟩ ⟨c, d⟩ u v heq
  simp only [List.append_assoc] at heq
  obtain ⟨rfl, hback⟩ := h _ _ _ _ heq
  obtain ⟨rfl, huv⟩ := h' _ _ _ _ hback
  exact ⟨rfl, huv⟩

/-- The same characters behind a spelling. -/
theorem followed (h : SelfDelimiting spell) (w : List Char) :
    SelfDelimiting fun a => spell a ++ w := by
  intro a b u v heq
  simp only [List.append_assoc] at heq
  obtain ⟨hab, hrest⟩ := h _ _ _ _ heq
  exact ⟨hab, List.append_cancel_left hrest⟩

/-- Where no spelling begins another one, it is known which one a text begins with. -/
theorem of_prefixes (h : ∀ a b, spell a <+: spell b → a = b) : SelfDelimiting spell := by
  intro a b u v heq
  have hu : spell a <+: spell b ++ v := heq ▸ List.prefix_append _ u
  have hab : a = b := by
    rcases List.prefix_or_prefix_of_prefix hu (List.prefix_append _ v) with hprefix | hprefix
    · exact h a b hprefix
    · exact (h b a hprefix).symm
  obtain rfl := hab
  exact ⟨rfl, List.append_cancel_left heq⟩

end SelfDelimiting

/-- The bytes of a text in UTF-8. -/
def bytes (s : String) : List UInt8 :=
  s.toByteArray.data.toList

theorem bytes_prefix_bytes {s t : String} (h : s.toList <+: t.toList) : bytes s <+: bytes t := by
  obtain ⟨u, hu⟩ := h
  have ht : t = s ++ String.ofList u := by
    rw [← String.toList_inj, String.toList_append, String.toList_ofList, hu]
  rw [ht, bytes, bytes, String.toByteArray_append, ByteArray.data_append, Array.toList_append]
  exact List.prefix_append _ _

/-- No sentence begins another one. -/
theorem Kind.eq_of_prefix_message {k l : Kind} (h : k.message.toList <+: l.message.toList) :
    k = l := by
  have hall : ∀ k ∈ all, ∀ l ∈ all, bytes k.message <+: bytes l.message → k = l := by
    decide +kernel
  exact hall k k.mem_all l l.mem_all (bytes_prefix_bytes h)

theorem Kind.selfDelimiting_message : SelfDelimiting fun k : Kind => k.message.toList :=
  .of_prefixes fun _ _ => eq_of_prefix_message

theorem isDigit_of_mem_decimal (n : Nat) : ∀ d ∈ (toString n).toList, d.isDigit = true := by
  intro d hd
  rw [Nat.toString_eq_repr, Nat.toList_repr] at hd
  exact Nat.isDigit_of_mem_toDigits (by decide) (Nat.le_refl 10) hd

theorem decimal_inj {m n : Nat} (h : (toString m).toList = (toString n).toList) : m = n := by
  rw [Nat.toString_eq_repr, Nat.toString_eq_repr, Nat.toList_repr, Nat.toList_repr] at h
  have hvalue (k : Nat) : Nat.ofDigitChars 10 (Nat.toDigits 10 k) 0 = k :=
    Nat.ofDigitChars_toDigits (by decide) (Nat.le_refl 10)
  rw [← hvalue m, ← hvalue n, h]

/-- A character that is no digit ends a decimal number. -/
theorem selfDelimiting_decimal {c : Char} (hc : c.isDigit = false) :
    SelfDelimiting fun n : Nat => (toString n).toList ++ [c] := by
  intro m n u v heq
  simp only [List.append_assoc, List.singleton_append] at heq
  have htake (n : Nat) (u : List Char) :
      ((toString n).toList ++ c :: u).takeWhile Char.isDigit = (toString n).toList := by
    rw [List.takeWhile_append_of_pos (isDigit_of_mem_decimal n),
      List.takeWhile_cons_of_neg (by simp [hc]), List.append_nil]
  have htext : (toString m).toList = (toString n).toList := by
    rw [← htake m u, ← htake n v, heq]
  rw [htext] at heq
  have hrest := List.append_cancel_left heq
  exact ⟨decimal_inj htext, (List.cons.inj hrest).2⟩

/-- What stands before the pattern: the sentence for the kind and the column. -/
def heading (x : Kind × Nat) : List Char :=
  (x.1.message.toList ++ " at column ".toList) ++ (((toString x.2).toList ++ [':']) ++ [' '])

theorem selfDelimiting_heading : SelfDelimiting heading := by
  have hkind : SelfDelimiting fun k : Kind => k.message.toList ++ " at column ".toList :=
    Kind.selfDelimiting_message.followed _
  have hcolumn : SelfDelimiting fun n : Nat => ((toString n).toList ++ [':']) ++ [' '] :=
    (selfDelimiting_decimal (by decide)).followed _
  have hboth := hkind.append hcolumn
  exact hboth

theorem toList_text (p : Problem) :
    p.text.toList =
      heading (p.kind, p.column) ++ (p.consumed.toList ++ mark :: p.remaining.toList) := by
  simp [text, heading]

/-- As the column counts the characters before it, the mark of the place is told from others. -/
theorem eq_of_text {p q : Problem} (h : p.text = q.text) :
    p.kind = q.kind ∧ p.consumed = q.consumed ∧ p.remaining = q.remaining := by
  have hlists : p.text.toList = q.text.toList := congrArg String.toList h
  rw [toList_text, toList_text] at hlists
  obtain ⟨hheading, hpattern⟩ := selfDelimiting_heading _ _ _ _ hlists
  obtain ⟨hkind, hcolumn⟩ := Prod.mk.inj hheading
  have hlength : p.consumed.toList.length = q.consumed.toList.length := by
    rw [String.length_toList, String.length_toList]
    exact Nat.succ.inj hcolumn
  obtain ⟨hconsumed, hmarked⟩ := List.append_inj hpattern hlength
  have hremaining := (List.cons.inj hmarked).2
  exact ⟨hkind, String.toList_inj.mp hconsumed, String.toList_inj.mp hremaining⟩

/-- A problem is shown as its sentence, the column, which counts the characters before the place
from one, and the pattern with a mark at the place. This text tells the kind of the problem and both
parts of the pattern. -/
theorem text_tells_problem (p q : Problem) :
    p.text = p.kind.message ++ " at column " ++ toString (1 + p.consumed.toList.length) ++ ": " ++
      p.consumed ++ "‸" ++ p.remaining ∧
    (p.text = q.text ↔ p.kind = q.kind ∧ p.consumed = q.consumed ∧ p.remaining = q.remaining) := by
  constructor
  · rw [String.length_toList, Nat.add_comm]
    rfl
  · constructor
    · exact eq_of_text
    · rintro ⟨hkind, hconsumed, hremaining⟩
      rw [text, text, column, column, hkind, hconsumed, hremaining]

/-- What stands behind the column in one text stands in the pattern of another. -/
example : (Problem.mk .nothingToRepeat "" "* at column 1: ‸*").text =
    "Nothing to repeat: a quantifier must follow an atom at column 1: ‸* at column 1: ‸*" := by
  decide +kernel

end Problem

end NamedCaptures
