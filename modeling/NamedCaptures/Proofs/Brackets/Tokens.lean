import NamedCaptures.Proofs.Brackets.Alike
import NamedCaptures.Proofs.Brackets.Scan

/-!
# Tokens in a scan for brackets

Escapes, names and quantifiers take no bracket along that a scan would see, well formed or not, and
their notices are about other things. The former is so for every scan (`Alike`). For the latter
there is one statement for each reader: its notices are of the kinds of escapes (`OfEscapes`), or
not about brackets (`Quiet`). Classes are scanned from inside.
-/

namespace NamedCaptures.Brackets

open Pattern Scan

/-- The scan for brackets heeds only characters that matter. -/
theorem Alike.crosses {s t : List Char} (h : Alike s t) : Crosses s t := by
  have hsubset : marks ⊆ structureChars := by decide
  induction h with
  | refl s => exact Crosses.refl s
  | symm _ ih => exact ih.symm
  | trans _ _ ih ih' => exact ih.trans ih'
  | cons h s => exact Crosses.cons (fun hmem => h (hsubset hmem)) s
  | escape c s => exact Crosses.escape c s

/-- Of a character that is missing, nothing but that is noted. -/
theorem forall_expect_notices {P : Problem.Kind → Prop} (c : Char) {missing : Problem.Kind}
    (h : P missing) (s : List Char) : ∀ n ∈ (Lexeme.expect c missing s).notices, P n.kind := by
  rcases Lexeme.expect_cases c missing s with ⟨t, -, hread⟩ | ⟨-, hread⟩
  · rw [hread]
    rintro n ⟨⟩
  · rw [hread]
    exact List.forall_mem_singleton.mpr h

theorem quiet_expect (c : Char) {missing : Problem.Kind} (h : isStructural missing = false)
    (s : List Char) : Quiet (Lexeme.expect c missing s).notices :=
  forall_expect_notices (P := fun kind => isStructural kind = false) c h s

/-- What may be wrong with an escape for a character or for a set of characters. -/
def escapeKinds : List Problem.Kind :=
  [.propertyWithoutBrace, .unclosedProperty, .badControlLetter, .badHexEscape,
    .codePointWithoutDigits, .unclosedCodePoint, .codePointTooLarge, .badUnicodeEscape]

/-- All notices are about escapes for characters. -/
def OfEscapes (ns : List Notice) : Prop :=
  ∀ n ∈ ns, n.kind ∈ escapeKinds

namespace OfEscapes

variable {ns ms : List Notice} {kind : Problem.Kind}

theorem nil : OfEscapes [] := by
  rintro n ⟨⟩

theorem cons (h : kind ∈ escapeKinds) (s : List Char) (hns : OfEscapes ns) :
    OfEscapes (⟨kind, s⟩ :: ns) :=
  List.forall_mem_cons.mpr ⟨h, hns⟩

theorem singleton (h : kind ∈ escapeKinds) (s : List Char) : OfEscapes [⟨kind, s⟩] :=
  cons h s nil

theorem append (hn : OfEscapes ns) (hm : OfEscapes ms) : OfEscapes (ns ++ ms) :=
  List.forall_mem_append.mpr ⟨hn, hm⟩

/-- Escapes have nothing to do with the structure of a pattern. -/
theorem quiet (h : OfEscapes ns) : Quiet ns := by
  have hnone : escapeKinds.any isStructural = false := by decide
  intro n hn
  simpa using List.any_eq_false.mp hnone n.kind (h n hn)

end OfEscapes

theorem ofEscapes_expect (c : Char) {missing : Problem.Kind} (h : missing ∈ escapeKinds)
    (s : List Char) : OfEscapes (Lexeme.expect c missing s).notices :=
  forall_expect_notices (P := (· ∈ escapeKinds)) c h s

theorem ofEscapes_bracedCodePoint (s : List Char) : OfEscapes (bracedCodePoint s).notices := by
  have hclose : OfEscapes (Lexeme.expect '}' .unclosedCodePoint
      (s.dropWhile Numeral.isHexDigit)).notices := ofEscapes_expect '}' (by decide) _
  unfold bracedCodePoint
  dsimp only
  split
  · exact .singleton (by decide) s
  · split
    · exact hclose
    · exact .cons (by decide) s hclose

theorem ofEscapes_unicodeEscape (s : List Char) : OfEscapes (unicodeEscape s).notices := by
  unfold unicodeEscape
  split
  · exact ofEscapes_bracedCodePoint _
  · unfold unbracedCodePoint
    split
    · exact .singleton (by decide) s
    · split
      · split <;> exact .nil
      · exact .nil

theorem ofEscapes_propertyExpression (s : List Char) :
    OfEscapes (propertyExpression s).notices := by
  unfold propertyExpression
  split
  · exact ofEscapes_expect '}' (by decide) _
  · exact .singleton (by decide) s

theorem ofEscapes_controlLetter (s : List Char) : OfEscapes (controlLetter s).notices := by
  unfold controlLetter
  split
  · exact .singleton (by decide) []
  · split
    · exact .nil
    · exact .singleton (by decide) _

theorem ofEscapes_hexEscape (s : List Char) : OfEscapes (hexEscape s).notices := by
  unfold hexEscape
  split
  · split
    · exact .nil
    · exact .singleton (by decide) _
  · exact .singleton (by decide) _

theorem ofEscapes_characterEscape (c : Char) (s : List Char) :
    OfEscapes (characterEscape c s).notices := by
  unfold characterEscape
  split
  · exact ofEscapes_propertyExpression s
  · exact ofEscapes_propertyExpression s
  · exact ofEscapes_controlLetter s
  · exact ofEscapes_hexEscape s
  · exact ofEscapes_unicodeEscape s
  · exact .nil

theorem neutral_classEscape (s : List Char) : Neutral ('\\' :: s) (classEscape s) := by
  cases s with
  | nil => exact ⟨Crosses.backslash, Quiet.singleton rfl []⟩
  | cons c s => exact ⟨(alike_classEscape c s).crosses, (ofEscapes_characterEscape c s).quiet⟩

theorem quiet_nameChar (accept : Char → Bool) (s : List Char) :
    Quiet (nameChar accept s).notices := by
  unfold nameChar
  split
  · next t =>
      have hescape := (ofEscapes_unicodeEscape t).quiet
      dsimp only
      split
      · exact hescape
      · split
        · exact hescape
        · exact hescape.append (Quiet.singleton rfl _)
  · split <;> exact Quiet.nil
  · exact Quiet.nil

theorem quiet_nameTail (s : List Char) : Quiet (nameTail s).notices := by
  fun_induction nameTail s with
  | case1 s first _ => exact quiet_nameChar _ s
  | case2 s first _ _ tail ih => exact (quiet_nameChar _ s).append ih

theorem quiet_groupName (s : List Char) : Quiet (groupName s).notices := by
  unfold groupName
  split
  · next t =>
      have hfirst := quiet_nameChar Identifier.isStart t
      unfold nameToEnd
      dsimp only
      split
      · exact hfirst.append (Quiet.singleton rfl _)
      · exact (hfirst.append (quiet_nameTail _)).append (quiet_expect '>' rfl _)
  · exact Quiet.singleton rfl s

theorem neutral_groupOpening (s : List Char) : Neutral s (groupOpening s) := by
  refine ⟨(alike_groupOpening s).crosses, ?_⟩
  unfold groupOpening
  split
  · exact Quiet.nil
  · exact quiet_groupName _
  · exact Quiet.nil

theorem neutral_atomEscape (s : List Char) : Neutral ('\\' :: s) (atomEscape s) := by
  cases s with
  | nil => exact ⟨Crosses.backslash, Quiet.singleton rfl []⟩
  | cons c s =>
      refine ⟨(alike_atomEscape c s).crosses, ?_⟩
      rw [atomEscape]
      split
      · exact Quiet.nil
      · split
        · exact quiet_groupName _
        · exact (ofEscapes_characterEscape c s).quiet

theorem quiet_countedQuantifier (s : List Char) : Quiet (countedQuantifier s).notices := by
  unfold countedQuantifier
  dsimp only
  split
  · exact Quiet.singleton rfl s
  · split
    · dsimp only
      split
      · exact Quiet.singleton rfl _
      · exact Quiet.nil
    · exact quiet_expect '}' rfl _

theorem neutral_quantifier (s : List Char) : Neutral s (quantifier s) := by
  have hbare : Quiet (bareQuantifier s).notices := by
    unfold bareQuantifier
    split
    · exact Quiet.nil
    · exact Quiet.nil
    · exact Quiet.nil
    · exact quiet_countedQuantifier _
    · exact Quiet.nil
  refine ⟨(alike_quantifier s).crosses, ?_⟩
  unfold quantifier
  dsimp only
  split <;> exact hbare

end NamedCaptures.Brackets
