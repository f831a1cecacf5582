import NamedCaptures.Pattern.CharacterClass
import NamedCaptures.Pattern.Quantifier

/-!
# How terms begin

The first characters of a term tell what it is: an anchor, a lookaround, a group, or an atom that
is read at once. What may stand in the place of a term without beginning one is misplaced: a
closing bracket or brace, or a quantifier that has nothing to repeat.
-/

namespace NamedCaptures.Pattern

/-- The characters with a role of their own in a pattern. -/
def isSyntaxChar (c : Char) : Bool :=
  ['^', '$', '\\', '.', '*', '+', '?', '(', ')', '[', ']', '{', '}', '|'].contains c

/-- How a term begins, with the text that follows. -/
inductive Opening where
  /-- An assertion without contents. -/
  | anchor (rest : List Char)
  /-- A lookahead or lookbehind. -/
  | lookaround (negative : Bool) (rest : List Char)
  /-- A group, after its parenthesis. -/
  | group (rest : List Char)
  /-- Any other atom, which has been read. -/
  | atom (read : Lexeme Unit)
  /-- No term begins here. -/
  | none
  deriving DecidableEq, Repr

/-- How the term at the front of a text begins. -/
def Opening.of : List Char → Opening
  | '^' :: s => .anchor s
  | '$' :: s => .anchor s
  | '\\' :: 'b' :: s => .anchor s
  | '\\' :: 'B' :: s => .anchor s
  | '(' :: '?' :: '=' :: s => .lookaround false s
  | '(' :: '?' :: '!' :: s => .lookaround true s
  | '(' :: '?' :: '<' :: '=' :: s => .lookaround false s
  | '(' :: '?' :: '<' :: '!' :: s => .lookaround true s
  | '(' :: s => .group s
  | '\\' :: s => .atom (atomEscape s)
  | '[' :: s => .atom (characterClass s)
  | '.' :: s => .atom ⟨(), s, []⟩
  | c :: s => if isSyntaxChar c then .none else .atom ⟨(), s, []⟩
  | [] => .none

/-- The text that follows an opening, if there is one. -/
def Opening.rest? : Opening → Option (List Char)
  | .anchor s => some s
  | .lookaround _ s => some s
  | .group s => some s
  | .atom read => some read.rest
  | .none => Option.none

/-- What follows an opening is a part of the text, but not all of it. -/
theorem Opening.of_rest? {s t : List Char} (h : (Opening.of s).rest? = some t) :
    t <:+ s ∧ t.length < s.length := by
  have shorter {c : Char} {r u : List Char} (hu : u <:+ r) :
      u <:+ c :: r ∧ u.length < (c :: r).length :=
    ⟨hu.trans (List.suffix_cons _ _), Nat.lt_succ_of_le hu.length_le⟩
  unfold Opening.of at h
  split at h
  · cases h; exact shorter List.suffix_rfl
  · cases h; exact shorter List.suffix_rfl
  · cases h; exact shorter (List.suffix_cons _ _)
  · cases h; exact shorter (List.suffix_cons _ _)
  · cases h; exact shorter ⟨['?', '='], rfl⟩
  · cases h; exact shorter ⟨['?', '!'], rfl⟩
  · cases h; exact shorter ⟨['?', '<', '='], rfl⟩
  · cases h; exact shorter ⟨['?', '<', '!'], rfl⟩
  · cases h; exact shorter List.suffix_rfl
  · cases h; exact shorter (atomEscape_rest _)
  · cases h; exact shorter (characterClass_rest _)
  · cases h; exact shorter List.suffix_rfl
  · split at h
    · cases h
    · cases h; exact shorter List.suffix_rfl
  · cases h

/-- Reads over what is misplaced at the front of a text, if it is. -/
def misplaced? : List Char → Option (Lexeme Unit)
  | [] => none
  | c :: s =>
      if c = ']' ∨ c = '}' then some ⟨(), s, [⟨.strayCloser, c :: s⟩]⟩
      else if isQuantifierStart c then
        let read := quantifier (c :: s)
        some ⟨(), read.rest, ⟨.nothingToRepeat, c :: s⟩ :: read.notices⟩
      else none

theorem misplaced?_rest {s : List Char} {l : Lexeme Unit} (h : misplaced? s = some l) :
    l.rest <:+ s ∧ l.rest.length < s.length := by
  unfold misplaced? at h
  split at h
  · cases h
  · next c s =>
      have shorter {t : List Char} (ht : t <:+ s) : t <:+ c :: s ∧ t.length < (c :: s).length :=
        ⟨ht.trans (List.suffix_cons _ _), Nat.lt_succ_of_le ht.length_le⟩
      split at h
      · cases h
        exact shorter List.suffix_rfl
      · split at h
        · next hc =>
            cases h
            exact shorter (quantifier_rest_cons hc s)
        · cases h

end NamedCaptures.Pattern
