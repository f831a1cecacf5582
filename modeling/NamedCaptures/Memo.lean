import NamedCaptures.Analysis
import Std.Data.HashMap

/-!
# Remembered analyses

A memo keeps the outcome of each pattern that it was asked for, so that no text is analyzed twice.
What it keeps for a text is always the outcome of the analysis of that text.
-/

namespace NamedCaptures

/-- Outcomes of patterns, by the exact text of the pattern. -/
structure Memo where
  outcomes : Std.HashMap String Outcome
  sound : ∀ pattern o, outcomes[pattern]? = some o → o = NamedCaptures.analyze pattern

namespace Memo

/-- The memo that remembers nothing. -/
def empty : Memo :=
  ⟨∅, by simp⟩

instance : Inhabited Memo := ⟨empty⟩

/-- The outcome of a pattern, and the memo that remembers it. -/
def analyze (m : Memo) (pattern : String) : Outcome × Memo :=
  match m.outcomes[pattern]? with
  | some o => (o, m)
  | none =>
      let o := NamedCaptures.analyze pattern
      (o, ⟨m.outcomes.insert pattern o, by
        intro other p h
        rw [Std.HashMap.getElem?_insert] at h
        split at h
        · next heq =>
            cases h
            rw [← eq_of_beq heq]
        · exact m.sound other p h⟩)

/-- The number of patterns that are remembered. -/
def size (m : Memo) : Nat :=
  m.outcomes.size

/-- Whether nothing is remembered. -/
def isEmpty (m : Memo) : Bool :=
  m.outcomes.isEmpty

/-- Forgets everything. -/
def clear (_ : Memo) : Memo :=
  empty

/-- What a memo answers does not depend on what it remembers. -/
@[simp]
theorem analyze_fst (m : Memo) (pattern : String) :
    (m.analyze pattern).1 = NamedCaptures.analyze pattern := by
  unfold analyze
  split
  · next o h => exact m.sound pattern o h
  · rfl

end Memo

end NamedCaptures
