import NamedCaptures.Pattern.Escape

/-!
# Character classes

A character class ends at the first closing bracket that no escape takes. Of its contents only the
escapes matter.
-/

namespace NamedCaptures.Pattern

/-- Reads the members of a character class and its closing bracket. -/
def classMembers : List Char → Lexeme Unit
  | [] => ⟨(), [], [⟨.unclosedClass, []⟩]⟩
  | c :: s =>
      if c = ']' then ⟨(), s, []⟩
      else if c = '\\' then
        let escape := classEscape s
        let members := classMembers escape.rest
        ⟨(), members.rest, escape.notices ++ members.notices⟩
      else classMembers s
termination_by s => s.length
decreasing_by
  · exact Nat.lt_succ_of_le (classEscape_rest s).length_le
  · exact Nat.lt_succ_self _

/-- Reads a character class after its opening bracket. -/
def characterClass (s : List Char) : Lexeme Unit :=
  classMembers (Lexeme.skipOptional '^' s)

theorem classMembers_rest (s : List Char) : (classMembers s).rest <:+ s := by
  fun_induction classMembers s with
  | case1 => exact List.suffix_rfl
  | case2 s => exact List.suffix_cons _ _
  | case3 s escape members _ ih =>
      exact ih.trans ((classEscape_rest s).trans (List.suffix_cons _ _))
  | case4 c s _ _ ih => exact ih.trans (List.suffix_cons _ _)

theorem characterClass_rest (s : List Char) : (characterClass s).rest <:+ s :=
  (classMembers_rest _).trans (Lexeme.skipOptional_suffix _ s)

end NamedCaptures.Pattern
