import NamedCaptures.Proofs.Nesting.HeldNames

/-!
# Levels are isolated

What happens between the beginning of a level and its end changes nothing of the levels around it,
except that the level right around it gets groups. Which groups these are does not depend on the
levels around: they are the contribution of the steps in between, the same from wherever these are
taken. The main statement is `enclosed_steps_isolated`.

## Implementation notes

Inside a level further levels begin and end. So the induction over the steps in between has some
levels above those that are to be kept: as many as have begun and not ended yet (`run?_bracketed`).
-/

namespace NamedCaptures.Nesting

open Groups

variable {steps : List Step} {name : String}

theorem run?_append (n : Nesting) (steps more : List Step) :
    n.run? (steps ++ more) = (n.run? steps).bind fun m => m.run? more :=
  List.foldlM_append

/-- The steps end so many levels that have begun before them, and all those and only those that
begin among them. -/
def bracketed : List Step → Nat → Bool
  | [], begun => begun == 0
  | .descend :: steps, begun => bracketed steps (begun + 1)
  | .ascend :: _, 0 => false
  | .ascend :: steps, begun + 1 => bracketed steps begun
  | _ :: steps, begun => bracketed steps begun

/-- Bracketed steps are no fault. They lead back to the level below those that had begun, and what
they make of it has nothing to do with the levels around it. -/
theorem run?_bracketed (begun : List Level) (h : bracketed steps begun.length = true)
    (inner : Level) :
    ∃ last : Level, ∀ outer, run? ⟨inner, begun ++ outer⟩ steps = .ok ⟨last, outer⟩ := by
  induction steps generalizing inner begun with
  | nil =>
      obtain rfl : begun = [] := List.length_eq_zero_iff.mp (beq_iff_eq.mp h)
      exact ⟨inner, fun _ => rfl⟩
  | cons step steps ih =>
      cases step with
      | descend => exact ih (inner :: begun) h {}
      | name own => exact ih begun h { inner with ownName := some own }
      | bar => exact ih begun h { inner with hasBar := true }
      | settle => exact ih begun h inner.settle
      | loosen => exact ih begun h inner.loosen
      | ascend =>
          cases begun with
          | nil => cases h
          | cons parent begun => exact ih begun h (parent.absorb inner)

/-- The steps of a level that is loosened so many times after its contents. -/
def enclosed (steps : List Step) (loosenings : Nat) : List Step :=
  .descend :: (steps ++ .settle :: (List.replicate loosenings .loosen ++ [.ascend]))

/-- The groups that a level with these steps inside hands to the level around it. -/
def contribution (steps : List Step) (loosened : Bool) : Groups :=
  loosenIf loosened (start.run steps).settledGroups

theorem run?_loosenings (n : Nesting) (loosenings : Nat) :
    n.run? (List.replicate loosenings .loosen) = .ok ⟨{ n.inner with
      groups := loosenIf (loosenings != 0) n.inner.groups }, n.outer⟩ := by
  induction loosenings generalizing n with
  | zero => rfl
  | succ loosenings ih =>
      have hloosen : n.run? (List.replicate (loosenings + 1) .loosen) =
          n.loosen.run? (List.replicate loosenings .loosen) := rfl
      have hgroups : n.loosen.inner.groups = loosenIf true n.inner.groups := rfl
      rw [hloosen, ih, hgroups, loosenIf_loosenIf, Bool.or_true]
      rfl

/-- Only names that are given inside a level are contributed by it. -/
theorem mem_of_mem_contribution {loosened : Bool} (h : name ∈ (contribution steps loosened).names) :
    .name name ∈ steps := by
  have hinner := Level.mem_names_settle.mp (mem_names_loosenIf.mp h)
  rcases holds_of_run (Or.inl hinner) with hstart | hmem
  · exact absurd hstart (not_holds_start name)
  · exact hmem

theorem run?_enclosed (h : bracketed steps 0 = true) (loosenings : Nat) (n : Nesting) :
    n.run? (enclosed steps loosenings) = .ok ⟨{ n.inner with
      groups := n.inner.groups.override (contribution steps (loosenings != 0)) }, n.outer⟩ := by
  obtain ⟨last, hlast⟩ := run?_bracketed [] h {}
  have hstart : start.run? steps = .ok ⟨last, []⟩ := hlast []
  have hinside : run? ⟨{}, n.inner :: n.outer⟩ steps = .ok ⟨last, n.inner :: n.outer⟩ :=
    hlast (n.inner :: n.outer)
  have hgroups : contribution steps (loosenings != 0) =
      loosenIf (loosenings != 0) last.settle.groups := by
    rw [contribution, run_eq_of_run? hstart]
    rfl
  calc n.run? (enclosed steps loosenings)
      = (run? ⟨{}, n.inner :: n.outer⟩ steps).bind fun m =>
          m.run? (.settle :: (List.replicate loosenings .loosen ++ [.ascend])) :=
        run?_append _ _ _
    _ = run? ⟨last.settle, n.inner :: n.outer⟩
          (List.replicate loosenings .loosen ++ [.ascend]) := by
        rw [hinside]
        rfl
    _ = (run? ⟨last.settle, n.inner :: n.outer⟩ (List.replicate loosenings .loosen)).bind
          fun m => m.run? [.ascend] :=
        run?_append _ _ _
    _ = .ok ⟨{ n.inner with
          groups := n.inner.groups.override (contribution steps (loosenings != 0)) }, n.outer⟩ := by
        rw [run?_loosenings, hgroups]
        rfl

/-- Whatever the levels around a level are, nothing inside it changes them: the level right around
it gets what the steps inside contribute, and keeps its bar and its name, and the others stay as
they are. So a group whose name is not given inside stays as it is. -/
theorem enclosed_steps_isolated (h : bracketed steps 0 = true) (loosenings : Nat) (n : Nesting) :
    ∃ m : Nesting, n.run? (enclosed steps loosenings) = .ok m ∧
      m.outer = n.outer ∧ m.inner.hasBar = n.inner.hasBar ∧ m.inner.ownName = n.inner.ownName ∧
      m.inner.groups = n.inner.groups.override (contribution steps (loosenings != 0)) ∧
      ∀ name, .name name ∉ steps → m.inner.groups.get? name = n.inner.groups.get? name := by
  refine ⟨_, run?_enclosed h loosenings n, rfl, rfl, rfl, rfl, ?_⟩
  intro name hname
  have hnone : (contribution steps (loosenings != 0)).get? name = none := by
    rw [← Option.not_isSome_iff_eq_none, ← mem_names_iff]
    exact fun hmem => hname (mem_of_mem_contribution hmem)
  rw [get?_override, hnone, Option.none_or]

/-- Two groups with the same name inside, a bar, and loosening, in a group with a bar of its own. -/
theorem isolated_in_named_group :
    let steps : List Step := [.name "b", .descend, .name "a", .settle, .loosen, .ascend, .bar,
      .descend, .name "a", .bar, .settle, .ascend]
    let around : Level := ⟨⟨[("a", .required), ("c", .required)], by decide⟩, true, some "own"⟩
    bracketed steps 0 = true ∧ .name "c" ∉ steps ∧
      ∃ m : Nesting, run? ⟨around, [{}]⟩ (enclosed steps 2) = .ok m ∧ m.outer = [{}] ∧
        m.inner.ownName = some "own" ∧ m.inner.groups.get? "c" = some .required := by
  intro steps around
  have hname : Step.name "c" ∉ steps := by decide
  obtain ⟨m, hrun, houter, -, hown, -, hkept⟩ :=
    enclosed_steps_isolated (show bracketed steps 0 = true by decide) 2 ⟨around, [{}]⟩
  exact ⟨by decide, hname, m, hrun, houter, hown, hkept "c" hname⟩

end NamedCaptures.Nesting
