import NamedCaptures.Identifier
import NamedCaptures.Pattern.UnicodeEscape

/-!
# Group names

A group name stands between angle brackets. Each of its characters is written as itself or as a
Unicode escape, and the first has to begin an identifier and the others to continue one. A name is
read to its end even where an escape in it is wrong, but then it has no value.
-/

namespace NamedCaptures.Pattern

/-- What stands where a character of a name may be. -/
inductive NameChar where
  /-- A character that the name may hold here. -/
  | valid (c : Char)
  /-- An escape that is malformed or for a character that the name may not hold here. -/
  | invalid
  /-- Nothing that belongs to a name. -/
  | absent
  deriving DecidableEq, Repr

/-- Reads one character of a name, which has to satisfy `accept`. -/
def nameChar (accept : Char → Bool) : List Char → Lexeme NameChar
  | '\\' :: 'u' :: s =>
      let escape := unicodeEscape s
      match escape.value with
      | none => ⟨.invalid, escape.rest, escape.notices⟩
      | some n =>
          match (CodePoint.toChar? n).filter accept with
          | some c => ⟨.valid c, escape.rest, escape.notices⟩
          | none =>
              ⟨.invalid, escape.rest,
                escape.notices ++ [⟨.badGroupNameEscape, '\\' :: 'u' :: s⟩]⟩
  | c :: s => if accept c then ⟨.valid c, s, []⟩ else ⟨.absent, c :: s, []⟩
  | [] => ⟨.absent, [], []⟩

theorem nameChar_rest (accept : Char → Bool) (s : List Char) :
    (nameChar accept s).rest <:+ s := by
  unfold nameChar
  split
  · next s =>
      have h := (unicodeEscape_rest s).trans
        ((List.suffix_cons 'u' s).trans (List.suffix_cons '\\' _))
      dsimp only
      split
      · exact h
      · split <;> exact h
  · split
    · exact List.suffix_cons _ _
    · exact List.suffix_rfl
  · exact List.suffix_rfl

/-- Where a character of a name is read, valid or not, the text gets shorter. -/
theorem nameChar_rest_lt {accept : Char → Bool} {s : List Char}
    (h : (nameChar accept s).value ≠ .absent) :
    (nameChar accept s).rest.length < s.length := by
  unfold nameChar at h ⊢
  split
  · next s =>
      have hs := (unicodeEscape_rest s).length_le
      dsimp only
      split
      · simp only [List.length_cons]; omega
      · split <;> simp only [List.length_cons] <;> omega
  · next c s _ =>
      split
      · simp
      · next hc => simp [hc] at h
  · simp at h

/-- A name with one more character in front, if that character is valid. -/
def NameChar.cons : NameChar → Option (List Char) → Option (List Char)
  | .valid c, name => name.map (c :: ·)
  | _, _ => none

/-- Reads the characters of a name after its first. The value is there if all are valid. -/
def nameTail (s : List Char) : Lexeme (Option (List Char)) :=
  let first := nameChar Identifier.isPart s
  if h : first.value = .absent then ⟨some [], first.rest, first.notices⟩
  else
    have := nameChar_rest_lt h
    let tail := nameTail first.rest
    ⟨first.value.cons tail.value, tail.rest, first.notices ++ tail.notices⟩
termination_by s.length

/-- Reads a name and its closing angle bracket, after the opening one. -/
def nameToEnd (s : List Char) : Lexeme (Option (List Char)) :=
  let first := nameChar Identifier.isStart s
  if first.value = .absent then
    ⟨none, first.rest, first.notices ++ [⟨.emptyGroupName, first.rest⟩]⟩
  else
    let tail := nameTail first.rest
    let closing := Lexeme.expect '>' .unclosedGroupName tail.rest
    ⟨if closing.value then first.value.cons tail.value else none, closing.rest,
      first.notices ++ tail.notices ++ closing.notices⟩

/-- Reads a name between angle brackets. -/
def groupName : List Char → Lexeme (Option String)
  | '<' :: s =>
      let name := nameToEnd s
      ⟨name.value.map String.ofList, name.rest, name.notices⟩
  | s => ⟨none, s, [⟨.groupNameWithoutOpening, s⟩]⟩

theorem nameTail_of_absent {s : List Char} (h : (nameChar Identifier.isPart s).value = .absent) :
    nameTail s = ⟨some [], (nameChar Identifier.isPart s).rest,
      (nameChar Identifier.isPart s).notices⟩ := by
  rw [nameTail, dif_pos h]

theorem nameTail_of_present {s : List Char} (h : (nameChar Identifier.isPart s).value ≠ .absent) :
    nameTail s =
      let first := nameChar Identifier.isPart s
      let tail := nameTail first.rest
      ⟨first.value.cons tail.value, tail.rest, first.notices ++ tail.notices⟩ := by
  rw [nameTail, dif_neg h]

theorem nameTail_rest (s : List Char) : (nameTail s).rest <:+ s := by
  fun_induction nameTail s with
  | case1 s => exact nameChar_rest _ s
  | case2 s first h _ tail ih => exact ih.trans (nameChar_rest _ s)

theorem nameToEnd_rest (s : List Char) : (nameToEnd s).rest <:+ s := by
  unfold nameToEnd
  dsimp only
  split
  · exact nameChar_rest _ s
  · exact (Lexeme.expect_rest _ _ _).trans ((nameTail_rest _).trans (nameChar_rest _ s))

theorem groupName_rest (s : List Char) : (groupName s).rest <:+ s := by
  unfold groupName
  split
  · exact (nameToEnd_rest _).trans (List.suffix_cons _ _)
  · exact List.suffix_rfl

end NamedCaptures.Pattern
