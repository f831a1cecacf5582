import NamedCaptures.Proofs.Readers.Induction
import NamedCaptures.Proofs.Readers.Opening

/-!
# Where the readers stop

A reader of alternatives goes on to the end of the text, or to a closing parenthesis that is not
its own to read. The main statement is `disjunction_stops`.
-/

namespace NamedCaptures.Pattern

/-- Where no term begins and nothing is misplaced, an alternative ends. -/
theorem eq_of_stop {s : List Char} (hterm : term? s = none) (hmisplaced : misplaced? s = none) :
    s = [] ∨ ∃ c t, s = c :: t ∧ (c = ')' ∨ c = '|') := by
  rcases Opening.eq_of_none (term?_eq_none_iff.mp hterm) with rfl | ⟨c, t, rfl, hc⟩
  · exact Or.inl rfl
  · refine Or.inr ⟨c, t, rfl, ?_⟩
    simp only [misplaced?] at hmisplaced
    split at hmisplaced
    · cases hmisplaced
    · next hclosing =>
        split at hmisplaced
        · cases hmisplaced
        · next hquantifier =>
            simp only [isQuantifierStart, Bool.or_eq_true, beq_iff_eq, not_or] at hquantifier
            rw [not_or] at hclosing
            simpa [hquantifier, hclosing] using hc

theorem carried_stops :
    Carried
      (fun _ r => r.rest = [] ∨ ∃ t, r.rest = ')' :: t)
      (fun _ r => r.rest = [] ∨ ∃ c t, r.rest = c :: t ∧ (c = ')' ∨ c = '|'))
      (fun _ _ => True) where
  bar s t _ _ hd := hd
  last s ha hne := by
    rcases ha with hnil | ⟨c, t, hcons, hc⟩
    · exact Or.inl hnil
    · rcases hc with rfl | rfl
      · exact Or.inr ⟨t, hcons⟩
      · exact absurd hcons (hne t)
  more s r _ _ ha := ha
  misplaced s l _ _ ha := ha
  stop s hterm hmisplaced := eq_of_stop hterm hmisplaced
  anchor s t _ := trivial
  atom s l _ := trivial
  lookaround s negative t _ _ := trivial
  group s t _ _ := trivial

/-- A disjunction is read to the end of the text or to a closing parenthesis. -/
theorem disjunction_stops (s : List Char) :
    (disjunction s).rest = [] ∨ ∃ t, (disjunction s).rest = ')' :: t :=
  carried_stops.disjunction s

/-- Where an alternative leaves something, a bar or a closing parenthesis comes next. -/
theorem alternative_next (s : List Char) :
    ∀ c ∈ (alternative s).rest.head?, c ∈ ['|', ')'] := by
  intro c hc
  rcases carried_stops.alternative s with hrest | ⟨d, t, hrest, hd⟩
  · rw [hrest] at hc
    cases hc
  · rw [hrest] at hc
    obtain rfl := Option.some.inj hc
    simpa using hd.symm

/-- Where a disjunction leaves something, a closing parenthesis comes next. -/
theorem disjunction_next (s : List Char) : ∀ c ∈ (disjunction s).rest.head?, c = ')' := by
  intro c hc
  rcases disjunction_stops s with hrest | ⟨t, hrest⟩
  · rw [hrest] at hc
    cases hc
  · rw [hrest] at hc
    exact (Option.some.inj hc).symm

/-- Whether an alternative is read up to a bar, so that the disjunction goes on behind it. -/
def stopsAtBar (s : List Char) : Bool :=
  (alternative s).rest.head? == some '|'

theorem stopsAtBar_of_bar {s t : List Char} (h : (alternative s).rest = '|' :: t) :
    stopsAtBar s = true := by
  simp [stopsAtBar, h]

theorem stopsAtBar_of_last {s : List Char} (h : ∀ t, (alternative s).rest ≠ '|' :: t) :
    stopsAtBar s = false := by
  unfold stopsAtBar
  cases hrest : (alternative s).rest with
  | nil => rfl
  | cons c t =>
      have hc : c ≠ '|' := by
        rintro rfl
        exact h t hrest
      simpa using hc

end NamedCaptures.Pattern
