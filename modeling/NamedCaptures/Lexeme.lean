import NamedCaptures.Problem

/-!
# Lexemes

What is read at the front of a text without descending into groups: a value, the text that is
left, and notices of what was wrong. A notice keeps the text that remained where it arose. So a
lexeme depends only on the text it is read from, and not on what stands before it.
-/

namespace NamedCaptures

/-- A kind of problem and the text that remained where it was found. -/
structure Notice where
  kind : Problem.Kind
  rest : List Char
  deriving DecidableEq, Repr

/-- A value read from the front of a text, the text that is left, and what was wrong, in order. -/
structure Lexeme (α : Type) where
  value : α
  rest : List Char
  notices : List Notice := []
  deriving DecidableEq, Repr

namespace Lexeme

/-- The lexeme without its value. -/
def discard {α : Type} (l : Lexeme α) : Lexeme Unit :=
  ⟨(), l.rest, l.notices⟩

@[simp]
theorem discard_rest {α : Type} (l : Lexeme α) : l.discard.rest = l.rest := rfl

@[simp]
theorem discard_notices {α : Type} (l : Lexeme α) : l.discard.notices = l.notices := rfl

/-- Reads the character `c`, or notes that it is missing; the value tells which. -/
def expect (c : Char) (missing : Problem.Kind) : List Char → Lexeme Bool
  | [] => ⟨false, [], [⟨missing, []⟩]⟩
  | d :: s => if d = c then ⟨true, s, []⟩ else ⟨false, d :: s, [⟨missing, d :: s⟩]⟩

/-- The text without the character `c` at its front, if it is there. -/
def skipOptional (c : Char) : List Char → List Char
  | [] => []
  | d :: s => if d = c then s else d :: s

/-- Either the character comes next and is read, or it does not and that is noted. -/
theorem expect_cases (c : Char) (missing : Problem.Kind) (s : List Char) :
    (∃ t, s = c :: t ∧ expect c missing s = ⟨true, t, []⟩) ∨
      s.head? ≠ some c ∧ expect c missing s = ⟨false, s, [⟨missing, s⟩]⟩ := by
  cases s with
  | nil => exact Or.inr ⟨nofun, rfl⟩
  | cons d s =>
      by_cases hd : d = c
      · exact Or.inl ⟨s, by rw [hd], by rw [expect, if_pos hd]⟩
      · exact Or.inr ⟨by simpa using hd, by rw [expect, if_neg hd]⟩

/-- Either the character comes next and is passed over, or the text is left as it is. -/
theorem skipOptional_cases (c : Char) (s : List Char) :
    (∃ t, s = c :: t ∧ skipOptional c s = t) ∨ s.head? ≠ some c ∧ skipOptional c s = s := by
  cases s with
  | nil => exact Or.inr ⟨nofun, rfl⟩
  | cons d s =>
      by_cases hd : d = c
      · exact Or.inl ⟨s, by rw [hd], by rw [skipOptional, if_pos hd]⟩
      · exact Or.inr ⟨by simpa using hd, by rw [skipOptional, if_neg hd]⟩

theorem expect_rest_eq (c : Char) (missing : Problem.Kind) (s : List Char) :
    (expect c missing s).rest = skipOptional c s := by
  cases s with
  | nil => rfl
  | cons d s =>
      rw [expect, skipOptional]
      split <;> rfl

theorem skipOptional_suffix (c : Char) (s : List Char) : skipOptional c s <:+ s := by
  rcases skipOptional_cases c s with ⟨t, rfl, hskip⟩ | ⟨-, hskip⟩
  · rw [hskip]
    exact List.suffix_cons _ _
  · simp [hskip]

theorem expect_rest (c : Char) (missing : Problem.Kind) (s : List Char) :
    (expect c missing s).rest <:+ s := by
  rw [expect_rest_eq]
  exact skipOptional_suffix c s

end Lexeme

end NamedCaptures
