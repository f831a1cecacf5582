import NamedCaptures.Pattern.Disjunction
import NamedCaptures.Position

/-!
# The analysis of a pattern

A pattern is read as a disjunction. A closing parenthesis that is left over is noted, and reading
goes on behind it. If nothing was wrong, the outcome is the map of named groups on the
outermost level; otherwise it is the list of problems in the order in which they were found.
-/

namespace NamedCaptures

namespace Pattern

/-- The note for a character that is left over behind a pattern, a closing parenthesis. -/
def strayCloser (c : Char) (s : List Char) : Reading :=
  ⟨s, [⟨.strayCloser, c :: s⟩], []⟩

/-- Reads a whole pattern. -/
def read (s : List Char) : Reading :=
  let contents := disjunction s
  match h : contents.rest with
  | [] => contents
  | c :: t =>
      have : t.length < s.length := (show c :: t <:+ s from h ▸ disjunction_rest s).length_le
      contents.andThen ((strayCloser c t).andThen (read t))
termination_by s.length

theorem read_eq (s : List Char) :
    read s =
      match (disjunction s).rest with
      | [] => disjunction s
      | c :: t => (disjunction s).andThen ((strayCloser c t).andThen (read t)) := by
  rw [read]
  split
  · next h => simp only [h]
  · next h => simp only [h]

/-- The whole pattern is read. -/
theorem read_rest (s : List Char) : (read s).rest = [] := by
  fun_induction read s with
  | case1 s contents h => exact h
  | case2 s contents c t h _ ih => exact ih

end Pattern

/-- What the analysis of a pattern finds: its named groups, or what is wrong with it. -/
inductive Outcome where
  | success (groups : Groups)
  | failure (problems : List Problem)
  deriving DecidableEq, Repr, Inhabited

namespace Outcome

/-- Whether the pattern is well formed. -/
def isSuccess : Outcome → Bool
  | success _ => true
  | failure _ => false

/-- The named groups of a well-formed pattern. -/
def groups? : Outcome → Option Groups
  | success groups => some groups
  | failure _ => none

/-- The requiredness of a group, if the pattern is well formed and has it. -/
def requiredness? (o : Outcome) (name : String) : Option Requiredness :=
  o.groups?.bind (·.get? name)

/-- What is wrong with the pattern, in the order found. -/
def problems : Outcome → List Problem
  | success _ => []
  | failure problems => problems

end Outcome

/-- The problem of a notice in a pattern. -/
def Notice.locate (pattern : List Char) (n : Notice) : Problem :=
  .at (.ofRest pattern n.rest) n.kind

/-- The outcome of a reading of a pattern. -/
def Reading.outcome (pattern : List Char) (r : Reading) : Outcome :=
  if r.notices.isEmpty then .success (Nesting.start.run r.steps).settledGroups
  else .failure (r.notices.map (·.locate pattern))

/-- Analyzes a pattern. -/
def analyze (pattern : String) : Outcome :=
  (Pattern.read pattern.toList).outcome pattern.toList

/-- The problems of a pattern are the notices of reading it, well formed or not. -/
theorem problems_analyze (pattern : String) :
    (analyze pattern).problems =
      (Pattern.read pattern.toList).notices.map (·.locate pattern.toList) := by
  unfold analyze Reading.outcome
  split
  · next h =>
      rw [List.isEmpty_iff.mp h]
      rfl
  · rfl

/-- A pattern is well formed exactly when nothing is wrong with it. -/
theorem analyze_isSuccess_iff (pattern : String) :
    (analyze pattern).isSuccess = true ↔ (analyze pattern).problems = [] := by
  unfold analyze Reading.outcome
  split
  · simp [Outcome.isSuccess, Outcome.problems]
  · next h => simpa [Outcome.isSuccess, Outcome.problems] using h

end NamedCaptures
