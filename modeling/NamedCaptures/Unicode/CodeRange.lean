/-!
# Ranges of code points

A property of code points as the ascending list of the closed ranges that have it. The look-up
stops at the first range beyond the number. The main statement says that this loses nothing: the
list covers a number exactly when one of its ranges holds it.
-/

namespace NamedCaptures.Unicode

/-- A closed range of code points. -/
structure CodeRange where
  first : Nat
  last : Nat
  deriving DecidableEq, Repr

namespace CodeRange

/-- The number lies in the range. -/
def Holds (r : CodeRange) (n : Nat) : Prop :=
  r.first ≤ n ∧ n ≤ r.last

/-- Ranges that are not empty and follow each other with a gap. -/
def Ascending : List CodeRange → Prop
  | [] => True
  | [r] => r.first ≤ r.last
  | r :: q :: rs => r.first ≤ r.last ∧ r.last + 1 < q.first ∧ Ascending (q :: rs)

instance decidableAscending : (rs : List CodeRange) → Decidable (Ascending rs)
  | [] => inferInstanceAs (Decidable True)
  | [r] => inferInstanceAs (Decidable (r.first ≤ r.last))
  | r :: q :: rs =>
      have := decidableAscending (q :: rs)
      inferInstanceAs (Decidable (r.first ≤ r.last ∧ r.last + 1 < q.first ∧ Ascending (q :: rs)))

/-- Whether one of ascending ranges holds the number. -/
def covers : List CodeRange → Nat → Bool
  | [], _ => false
  | r :: rs, n => if n < r.first then false else if n ≤ r.last then true else covers rs n

/-- The number of code points in the ranges. -/
def count (rs : List CodeRange) : Nat :=
  rs.foldl (fun n r => n + (r.last - r.first + 1)) 0

theorem Ascending.tail {r : CodeRange} {rs : List CodeRange} (h : Ascending (r :: rs)) :
    Ascending rs := by
  cases rs with
  | nil => trivial
  | cons q rs => exact h.2.2

/-- The later ranges of an ascending list begin beyond the first one. -/
theorem Ascending.last_lt {r : CodeRange} {rs : List CodeRange} (h : Ascending (r :: rs)) :
    ∀ q ∈ rs, r.last < q.first := by
  induction rs generalizing r with
  | nil => intro q hq; cases hq
  | cons p rs ih =>
      intro q hq
      have hp : p.first ≤ p.last := by
        cases rs with
        | nil => exact h.2.2
        | cons _ _ => exact h.2.2.1
      rcases List.mem_cons.mp hq with rfl | hq
      · exact Nat.lt_of_succ_lt h.2.1
      · have := ih h.tail q hq
        have := h.2.1
        omega

/-- The look-up finds the number exactly when some range holds it. -/
theorem covers_iff {rs : List CodeRange} (h : Ascending rs) (n : Nat) :
    covers rs n = true ↔ ∃ r ∈ rs, r.Holds n := by
  induction rs with
  | nil => simp [covers]
  | cons r rs ih =>
      have hfirst : r.first ≤ r.last := by
        cases rs with
        | nil => exact h
        | cons _ _ => exact h.1
      have hlater := h.last_lt
      simp only [covers, Holds, List.mem_cons, exists_eq_or_imp] at ih ⊢
      split
      · next hn =>
          refine iff_of_false (by simp) ?_
          rintro (hr | ⟨q, hq, hqn, _⟩)
          · omega
          · have := hlater q hq
            omega
      · split
        · next h₁ h₂ => exact iff_of_true rfl (Or.inl ⟨by omega, h₂⟩)
        · next h₁ h₂ =>
            rw [ih h.tail]
            exact ⟨Or.inr, fun hr => hr.elim (fun hr => absurd hr.2 h₂) id⟩

end CodeRange

end NamedCaptures.Unicode
