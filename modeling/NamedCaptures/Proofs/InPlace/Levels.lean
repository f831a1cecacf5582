import NamedCaptures.Proofs.InPlace.Performing
import NamedCaptures.Proofs.Readers.Stopping
import NamedCaptures.Proofs.Requiredness.TreeGroups

/-!
# The steps of readings are balanced

The steps of nesting that a reading takes are never misused: a level ends only behind its beginning
and only when it is settled. So they can be taken from any nesting, and they lead back to the level
from which they were taken. That level has got groups and perhaps a bar, the same ones from wherever
the steps were taken, and nothing else of it has changed (`Gains`). The main statements are
`carried_gains`, and `balanced_read` for whole patterns.
-/

namespace NamedCaptures.InPlace

open Grammar

/-- Taken from any nesting, the steps are no fault, and they lead back to its level. -/
def Balanced (steps : List Nesting.Step) : Prop :=
  ∀ n : Nesting, ∃ inner : Level, levels n steps = .ok ⟨inner, n.outer⟩ ∧
    inner.ownName = n.inner.ownName

/-- Steps that are no fault are the steps that change the nesting. -/
theorem run_of_levels {n m : Nesting} {steps : List Nesting.Step} (h : levels n steps = .ok m) :
    n.run steps = m := by
  induction steps generalizing n with
  | nil => exact Except.ok.inj h
  | cons step steps ih =>
      rw [levels, List.foldlM_cons] at h
      cases hstep : levelStep n step with
      | error f =>
          rw [hstep] at h
          cases h
      | ok k =>
          rw [hstep] at h
          have hadvance : n.advance step = k := by
            cases step with
            | ascend =>
                rw [levelStep] at hstep
                split at hstep
                · cases hstep
                · next m hup =>
                    split at hstep
                    · cases hstep
                    · simp only [Nesting.advance, Nesting.apply, hup]
                      exact Except.ok.inj hstep
            | descend => exact Except.ok.inj hstep
            | name name => exact Except.ok.inj hstep
            | bar => exact Except.ok.inj hstep
            | settle => exact Except.ok.inj hstep
            | loosen => exact Except.ok.inj hstep
          rw [Nesting.run_cons, hadvance]
          exact ih h

/-- Taken from any nesting, the steps are no fault. They add groups to its level, always the same
ones, and a bar if the condition holds. -/
def Gains (steps : List Nesting.Step) (b : Bool) : Prop :=
  ∃ m : Groups, ∀ n : Nesting, levels n steps = .ok (gain n m b)

namespace Gains

variable {steps more : List Nesting.Step} {a b : Bool}

theorem nil : Gains [] false :=
  ⟨.empty, fun n => by rw [gain_empty]; rfl⟩

theorem bar : Gains [.bar] true :=
  ⟨.empty, fun n => by rw [← advance_bar n .empty false, gain_empty]; rfl⟩

theorem append (h : Gains steps a) (h' : Gains more b) : Gains (steps ++ more) (a || b) := by
  obtain ⟨m, hm⟩ := h
  obtain ⟨k, hk⟩ := h'
  refine ⟨m.override k, fun n => ?_⟩
  rw [levels_append, hm, ← gain_gain]
  exact hk _

/-- A level that ends is settled first, and then it has no name that waits. -/
theorem levels_ending (inner : Level) (optional : Bool) :
    ∃ m : Groups, ∀ n : Nesting, levels ⟨inner, n.inner :: n.outer⟩
      (.settle :: Pattern.lookaroundSteps optional) = .ok (gain n m false) := by
  have hending (own : Level) (n : Nesting) :
      ⟨n.inner.absorb own, n.outer⟩ = gain n own.groups false := by
    simp [gain, Level.absorb]
  cases optional with
  | true => exact ⟨_, fun n => congrArg Except.ok (hending inner.settle.loosen n)⟩
  | false => exact ⟨_, fun n => congrArg Except.ok (hending inner.settle n)⟩

theorem levels_openingSteps (n : Nesting) (name : Option String) :
    levels n (Pattern.openingSteps name) = .ok ⟨{ ownName := name }, n.inner :: n.outer⟩ := by
  cases name <;> rfl

/-- Steps on a level of their own, from its beginning to its end. -/
theorem enclosed (h : Gains steps b) (name : Option String) (optional : Bool) :
    Gains (Pattern.openingSteps name ++
      (steps ++ .settle :: Pattern.lookaroundSteps optional)) false := by
  obtain ⟨m, hm⟩ := h
  obtain ⟨k, hk⟩ := levels_ending ⟨Groups.empty.override m, false || b, name⟩ optional
  refine ⟨k, fun n => ?_⟩
  rw [levels_append, levels_openingSteps, Except.bind, levels_append, hm]
  exact hk n

/-- Steps on a level of their own that is settled and does not end yet. -/
theorem settled (h : Gains steps b) (name : Option String) :
    ∃ own : Level, own.ownName = none ∧ ∀ n : Nesting,
      levels n (Pattern.openingSteps name ++ (steps ++ [.settle])) =
        .ok ⟨own, n.inner :: n.outer⟩ := by
  obtain ⟨m, hm⟩ := h
  refine ⟨Level.settle ⟨Groups.empty.override m, false || b, name⟩, rfl, fun n => ?_⟩
  rw [levels_append, levels_openingSteps, Except.bind, levels_append, hm]
  rfl

theorem balanced (h : Gains steps b) : Balanced steps := by
  obtain ⟨m, hm⟩ := h
  exact fun n => ⟨(gain n m b).inner, hm n, rfl⟩

end Gains

theorem quantifiedSteps_eq_lookaroundSteps (q : Option Pattern.Quantifier) :
    Pattern.quantifiedSteps q = Pattern.lookaroundSteps (q.any (·.allowsNone)) := by
  cases q <;> rfl

theorem Gains.lookaround {t : List Char} {b : Bool} (h : Gains (Pattern.disjunction t).steps b)
    (negative : Bool) : Gains (Pattern.lookaround negative t).steps false := by
  have henclosed := h.enclosed none negative
  rw [Pattern.lookaround_eq]
  simpa [Pattern.openingSteps, Pattern.closingParenthesis] using henclosed

/-- Only disjunctions with bars of their own add a bar to their level. -/
theorem carried_gains :
    Pattern.Carried (fun s r => Gains r.steps (Pattern.stopsAtBar s))
      (fun _ r => Gains r.steps false) (fun _ r => Gains r.steps false) where
  bar s t ha ht hd := by
    rw [Pattern.stopsAtBar_of_bar ht]
    exact ha.append (Gains.bar.append hd)
  last s ha hne := by
    rw [Pattern.stopsAtBar_of_last hne]
    exact ha
  more s r _ ht ha := ht.append ha
  misplaced s l _ _ ha := ha
  stop s _ _ := .nil
  anchor s t _ := .nil
  atom s l _ := .nil
  lookaround s negative t _ hd := hd.lookaround negative
  group s t _ hd := by
    have henclosed := hd.enclosed (Pattern.groupOpening t).value
      ((Pattern.quantifier (Pattern.group t).rest).value.any (·.allowsNone))
    rw [← quantifiedSteps_eq_lookaroundSteps] at henclosed
    rw [Pattern.group_eq] at henclosed ⊢
    simpa [Pattern.closingParenthesis] using henclosed

/-- A group up to its closing parenthesis adds its own level to those around it. -/
theorem levels_group (u : List Char) :
    ∃ own : Level, own.ownName = none ∧ ∀ n : Nesting,
      levels n (Pattern.group u).steps = .ok ⟨own, n.inner :: n.outer⟩ := by
  have hsettled := (carried_gains.disjunction (Pattern.groupOpening u).rest).settled
    (Pattern.groupOpening u).value
  rw [Pattern.group_eq]
  simpa [Pattern.closingParenthesis] using hsettled

theorem exists_gains_read (s : List Char) : ∃ b, Gains (Pattern.read s).steps b := by
  fun_induction Pattern.read s with
  | case1 s contents h => exact ⟨_, carried_gains.disjunction s⟩
  | case2 s contents c t h _ ih =>
      obtain ⟨b, hb⟩ := ih
      exact ⟨_, (carried_gains.disjunction s).append hb⟩

theorem balanced_read (s : List Char) : Balanced (Pattern.read s).steps := by
  obtain ⟨b, hb⟩ := exists_gains_read s
  exact hb.balanced

end NamedCaptures.InPlace
