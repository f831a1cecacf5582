import NamedCaptures.Analysis
import NamedCaptures.Proofs.Grammar.TreeRecognition

/-!
# The analysis accepts exactly the grammar

A pattern is well formed exactly when the grammar derives its text. For a well-formed pattern, the
analysis runs the steps of any of its derivation trees: trees of one text differ in their leaves
only.
-/

namespace NamedCaptures.Grammar

open Pattern

theorem read_text (d : Tree .disjunction) : read d.text = ⟨[], [], d.steps⟩ := by
  have hread := d.reads [] (by rintro c t ⟨⟩)
  rw [List.append_nil] at hread
  rw [read_eq, hread]

/-- The outcome for the text of a tree, by the steps of the tree. -/
theorem analyze_text {pattern : String} {d : Tree .disjunction} (h : d.text = pattern.toList) :
    analyze pattern = .success (Nesting.start.run d.steps).settledGroups := by
  rw [analyze, ← h, read_text]
  rfl

theorem disjunction_of_read_notices {s : List Char} (h : (read s).notices = []) :
    (disjunction s).notices = [] ∧ (disjunction s).rest = [] := by
  rw [read_eq] at h
  split at h
  · next hrest => exact ⟨h, hrest⟩
  · simp [strayCloser] at h

theorem exists_tree_of_isSuccess {pattern : String} (h : (analyze pattern).isSuccess = true) :
    Derivable pattern.toList := by
  have hclean : (read pattern.toList).notices = [] := by
    rwa [analyze_isSuccess_iff, problems_analyze, List.map_eq_nil_iff] at h
  obtain ⟨hnotices, hrest⟩ := disjunction_of_read_notices hclean
  obtain ⟨d, hd⟩ := disjunction_recognised hnotices
  rw [hrest, List.append_nil] at hd
  exact ⟨d, hd.symm⟩

/-- A pattern is well formed exactly when the grammar derives its text. -/
theorem analyze_isSuccess_iff_derivable (pattern : String) :
    (analyze pattern).isSuccess = true ↔ Derivable pattern.toList := by
  constructor
  · exact exists_tree_of_isSuccess
  · rintro ⟨d, hd⟩
    rw [analyze_text hd]
    rfl

end NamedCaptures.Grammar
