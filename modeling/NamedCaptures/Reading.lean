import NamedCaptures.Lexeme
import NamedCaptures.Nesting

/-!
# Readings

What is read of a pattern with its groups: the text that is left, notices of what was wrong, and
the steps of nesting. Readings are put together from front to back by `andThen`.
-/

namespace NamedCaptures

/-- The text that is left, what was wrong, and the steps of nesting, both in order. -/
structure Reading where
  rest : List Char
  notices : List Notice := []
  steps : List Nesting.Step := []
  deriving DecidableEq, Repr

namespace Reading

/-- A lexeme as a reading, which takes no steps. -/
def ofLexeme {α : Type} (l : Lexeme α) : Reading :=
  ⟨l.rest, l.notices, []⟩

/-- Steps alone, before the given text. -/
def ofSteps (steps : List Nesting.Step) (rest : List Char) : Reading :=
  ⟨rest, [], steps⟩

/-- A reading and one of the text that it left. -/
def andThen (r q : Reading) : Reading :=
  ⟨q.rest, r.notices ++ q.notices, r.steps ++ q.steps⟩

@[simp]
theorem andThen_rest (r q : Reading) : (r.andThen q).rest = q.rest := rfl

@[simp]
theorem andThen_notices (r q : Reading) : (r.andThen q).notices = r.notices ++ q.notices := rfl

@[simp]
theorem andThen_steps (r q : Reading) : (r.andThen q).steps = r.steps ++ q.steps := rfl

@[simp]
theorem ofLexeme_rest {α : Type} (l : Lexeme α) : (ofLexeme l).rest = l.rest := rfl

@[simp]
theorem ofLexeme_notices {α : Type} (l : Lexeme α) : (ofLexeme l).notices = l.notices := rfl

@[simp]
theorem ofLexeme_steps {α : Type} (l : Lexeme α) : (ofLexeme l).steps = [] := rfl

@[simp]
theorem ofSteps_rest (steps : List Nesting.Step) (s : List Char) : (ofSteps steps s).rest = s := rfl

@[simp]
theorem ofSteps_notices (steps : List Nesting.Step) (s : List Char) :
    (ofSteps steps s).notices = [] := rfl

@[simp]
theorem ofSteps_steps (steps : List Nesting.Step) (s : List Char) :
    (ofSteps steps s).steps = steps := rfl

theorem andThen_assoc (r q p : Reading) :
    (r.andThen q).andThen p = r.andThen (q.andThen p) := by
  simp [andThen]

/-- Nothing is read behind. -/
@[simp]
theorem andThen_ofSteps_nil (r : Reading) : r.andThen (ofSteps [] r.rest) = r := by
  simp [andThen, ofSteps]

end Reading

end NamedCaptures
