import NamedCaptures.Nesting
import NamedCaptures.Proofs.Groups.Override

/-!
# The names that a nesting holds

A name that a level is given waits until the level is settled, then it is one of its groups, and
where the level ends it goes to the level around it. On this way it gets lost in two cases only: a
level gets a second name while its first one waits, or it ends while its name waits. `careful` rules
these out. The main statement is `names_kept_to_end`: whatever careful steps are taken in whatever
order, no name is lost up to the end of all levels.
-/

namespace NamedCaptures

open Groups

namespace Level

variable {l inner : Level} {name : String}

/-- The level has a group of the name, or is itself to be one. -/
def Holds (l : Level) (name : String) : Prop :=
  name ∈ l.groups.names ∨ l.ownName = some name

theorem settle_groups (l : Level) :
    l.settle.groups = match l.ownName with
      | some own => (loosenIf l.hasBar l.groups).insert own .required
      | none => loosenIf l.hasBar l.groups := rfl

/-- All that a level holds is a group once the level is settled. -/
theorem mem_names_settle : name ∈ l.settle.groups.names ↔ l.Holds name := by
  rw [settle_groups, Holds]
  cases l.ownName with
  | none => simp [mem_names_loosenIf]
  | some own =>
      rw [mem_names_insert, mem_names_loosenIf, Option.some_inj, eq_comm]
      exact Or.comm

theorem holds_settle : l.settle.Holds name ↔ l.Holds name := by
  rw [← mem_names_settle (l := l)]
  simp [Holds, settle]

theorem holds_loosen : l.loosen.Holds name ↔ l.Holds name :=
  or_congr (mem_names_loosenIf (b := true)) Iff.rfl

/-- A level takes over the groups of an inner one, and not its name. -/
theorem holds_absorb :
    (l.absorb inner).Holds name ↔ l.Holds name ∨ name ∈ inner.groups.names := by
  rw [Holds, Holds, absorb, mem_names_override]
  exact or_right_comm

end Level

namespace Nesting

variable {n : Nesting} {step : Step} {steps : List Step} {name : String}

/-- A level of the nesting holds the name. -/
def Holds (n : Nesting) (name : String) : Prop :=
  n.inner.Holds name ∨ ∃ l ∈ n.outer, l.Holds name

theorem not_holds_start (name : String) : ¬ start.Holds name := by
  simp [Holds, Level.Holds, start, names, Groups.empty]

/-- The step does not make a name that waits get lost. -/
def fits (n : Nesting) : Step → Bool
  | .name _ => n.inner.ownName.isNone
  | .ascend => n.inner.ownName.isNone
  | _ => true

/-- The step ends a level. -/
def endsLevel (n : Nesting) (step : Step) : Bool :=
  step == .ascend && (n.apply step).isOk

/-- A step is a fault only if it is to end the outermost level. -/
theorem advance_ascend (n : Nesting) :
    (n.outer = [] ∧ n.advance .ascend = n ∧ n.endsLevel .ascend = false) ∨
      ∃ parent outer, n.outer = parent :: outer ∧
        n.advance .ascend = ⟨parent.absorb n.inner, outer⟩ ∧ n.endsLevel .ascend = true := by
  obtain ⟨inner, _ | ⟨parent, outer⟩⟩ := n
  · exact Or.inl ⟨rfl, rfl, rfl⟩
  · exact Or.inr ⟨parent, outer, rfl, rfl, rfl⟩

/-- No step makes names up. -/
theorem holds_of_advance (h : (n.advance step).Holds name) : n.Holds name ∨ step = .name name := by
  cases step with
  | descend =>
      obtain (hgroups | hown) | ⟨l, hl, hholds⟩ := h
      · cases hgroups
      · cases hown
      · rcases List.mem_cons.mp hl with rfl | hl
        · exact Or.inl (Or.inl hholds)
        · exact Or.inl (Or.inr ⟨l, hl, hholds⟩)
  | name own =>
      obtain (hgroups | hown) | houter := h
      · exact Or.inl (Or.inl (Or.inl hgroups))
      · exact Or.inr (congrArg Step.name (Option.some.inj hown))
      · exact Or.inl (Or.inr houter)
  | bar => exact Or.inl h
  | settle => exact Or.inl (h.imp_left Level.holds_settle.mp)
  | loosen => exact Or.inl (h.imp_left Level.holds_loosen.mp)
  | ascend =>
      rcases advance_ascend n with ⟨-, hstay, -⟩ | ⟨parent, outer, houter, hup, -⟩
      · rw [hstay] at h
        exact Or.inl h
      · rw [hup] at h
        refine Or.inl ?_
        obtain hholds | ⟨l, hl, hholds⟩ := h
        · rcases Level.holds_absorb.mp hholds with hparent | hinner
          · exact Or.inr ⟨parent, houter ▸ List.mem_cons_self, hparent⟩
          · exact Or.inl (Or.inl hinner)
        · exact Or.inr ⟨l, houter ▸ List.mem_cons_of_mem _ hl, hholds⟩

/-- A step that fits loses no name. -/
theorem holds_advance (hfits : n.fits step = true) (h : n.Holds name) :
    (n.advance step).Holds name := by
  cases step with
  | descend =>
      refine Or.inr ?_
      obtain hinner | ⟨l, hl, hholds⟩ := h
      · exact ⟨n.inner, List.mem_cons_self, hinner⟩
      · exact ⟨l, List.mem_cons_of_mem _ hl, hholds⟩
  | name own =>
      have hnone : n.inner.ownName = none := Option.isNone_iff_eq_none.mp hfits
      obtain (hgroups | hown) | houter := h
      · exact Or.inl (Or.inl hgroups)
      · rw [hnone] at hown
        cases hown
      · exact Or.inr houter
  | bar => exact h
  | settle => exact h.imp_left Level.holds_settle.mpr
  | loosen => exact h.imp_left Level.holds_loosen.mpr
  | ascend =>
      have hnone : n.inner.ownName = none := Option.isNone_iff_eq_none.mp hfits
      rcases advance_ascend n with ⟨-, hstay, -⟩ | ⟨parent, outer, houter, hup, -⟩
      · rwa [hstay]
      · rw [hup]
        obtain (hgroups | hown) | ⟨l, hl, hholds⟩ := h
        · exact Or.inl (Level.holds_absorb.mpr (Or.inr hgroups))
        · rw [hnone] at hown
          cases hown
        · rw [houter] at hl
          rcases List.mem_cons.mp hl with rfl | hl
          · exact Or.inl (Level.holds_absorb.mpr (Or.inl hholds))
          · exact Or.inr ⟨l, hl, hholds⟩

/-- A step that fits adds the name that it gives, and no other, and loses none. -/
theorem holds_advance_iff (hfits : n.fits step = true) :
    (n.advance step).Holds name ↔ n.Holds name ∨ step = .name name := by
  constructor
  · exact holds_of_advance
  · rintro (h | rfl)
    · exact holds_advance hfits h
    · exact Or.inl (Or.inr rfl)

theorem depth_advance (n : Nesting) (step : Step) :
    (n.advance step).depth + (n.endsLevel step).toNat =
      n.depth + [step].count .descend := by
  cases step with
  | ascend =>
      rcases advance_ascend n with ⟨-, hstay, hends⟩ | ⟨parent, outer, houter, hup, hends⟩
      · rw [hstay, hends]
        rfl
      · rw [hup, hends, depth, depth, houter]
        rfl
  | descend => rfl
  | name own => rfl
  | bar => rfl
  | settle => rfl
  | loosen => rfl

/-- No step makes a name that waits get lost. -/
def careful : Nesting → List Step → Bool
  | _, [] => true
  | n, step :: steps => n.fits step && careful (n.advance step) steps

/-- The number of levels that the steps end. -/
def endings : Nesting → List Step → Nat
  | _, [] => 0
  | n, step :: steps => (n.endsLevel step).toNat + endings (n.advance step) steps

theorem careful_append (n : Nesting) (steps more : List Step) :
    n.careful (steps ++ more) = (n.careful steps && (n.run steps).careful more) := by
  induction steps generalizing n with
  | nil => rfl
  | cons step steps ih =>
      rw [List.cons_append, careful, ih, careful, run_cons, Bool.and_assoc]

theorem holds_of_run (h : (n.run steps).Holds name) : n.Holds name ∨ .name name ∈ steps := by
  induction steps generalizing n with
  | nil => exact Or.inl h
  | cons step steps ih =>
      rcases ih h with hnext | hmem
      · rcases holds_of_advance hnext with hn | rfl
        · exact Or.inl hn
        · exact Or.inr List.mem_cons_self
      · exact Or.inr (List.mem_cons_of_mem _ hmem)

theorem depth_run (n : Nesting) (steps : List Step) :
    (n.run steps).depth + n.endings steps = n.depth + steps.count .descend := by
  induction steps generalizing n with
  | nil => rfl
  | cons step steps ih =>
      have hstep := depth_advance n step
      have hsteps := ih (n.advance step)
      rw [run_cons, endings, ← List.singleton_append, List.count_append]
      omega

theorem mem_names_endLevels (inner : Level) (outer : List Level) :
    name ∈ (endLevels inner outer).names ↔ inner.Holds name ∨ ∃ l ∈ outer, l.Holds name := by
  induction outer generalizing inner with
  | nil => simp [endLevels, Level.mem_names_settle]
  | cons parent outer ih =>
      rw [endLevels, ih, Level.holds_absorb, Level.mem_names_settle]
      simp only [List.mem_cons, exists_eq_or_imp]
      rw [or_assoc, or_left_comm]

/-- The steps that end so many levels, from the inside out. -/
def endingSteps : Nat → List Step
  | 0 => []
  | k + 1 => .settle :: .ascend :: endingSteps k

/-- Settling and ending one level after the other leads to the outermost one, without a fault. -/
theorem run?_endingSteps (n : Nesting) :
    ∃ outermost, n.run? (endingSteps n.depth) = .ok outermost ∧ outermost.depth = 0 ∧
      outermost.settledGroups = n.endAll := by
  obtain ⟨inner, outer⟩ := n
  induction outer generalizing inner with
  | nil => exact ⟨⟨inner, []⟩, rfl, rfl, rfl⟩
  | cons parent outer ih => exact ih (parent.absorb inner.settle)

/-- What holds of steps from the start that are careful. -/
structure KeepsNames (steps : List Step) : Prop where
  /-- The levels are those that have begun and not ended. -/
  depth : (start.run steps).depth + start.endings steps = steps.count .descend
  /-- The outermost level does not end: trying it is a fault and changes nothing. -/
  outermost : (start.run steps).depth = 0 →
    (start.run steps).apply .ascend = .error .noOuterLevel ∧
      start.run (steps ++ [.ascend]) = start.run steps
  /-- Each step adds the name that it gives, and no other, and loses none. -/
  held : ∀ before step after, steps = before ++ step :: after → ∀ name,
    (start.run (before ++ [step])).Holds name ↔
      (start.run before).Holds name ∨ step = .name name
  /-- Once all levels have ended, the groups are exactly the names that were held. -/
  ended : ∃ outermost, (start.run steps).run? (endingSteps (start.run steps).depth) =
      .ok outermost ∧ outermost.depth = 0 ∧
    outermost.settledGroups = (start.run steps).endAll ∧
    ∀ name, name ∈ outermost.settledGroups.names ↔ (start.run steps).Holds name
  /-- Every map has its names in ascending order, each of them once. -/
  ascending : (∀ l ∈ (start.run steps).inner :: (start.run steps).outer,
      l.groups.names.Pairwise (· < ·)) ∧ (start.run steps).endAll.names.Pairwise (· < ·)

/-- Whatever steps are taken in whatever order, if they are careful, no name is lost. -/
theorem names_kept_to_end (h : start.careful steps = true) : KeepsNames steps where
  depth := by
    have hdepth := depth_run start steps
    rwa [show start.depth = 0 from rfl, Nat.zero_add] at hdepth
  outermost hzero := by
    have hfault := (ascend_eq_error_iff (start.run steps) .noOuterLevel).mpr hzero
    refine ⟨hfault, ?_⟩
    rw [run_append, run_cons, run_nil, advance, apply, hfault]
  held before step after hsteps name := by
    rw [hsteps, careful_append, careful, Bool.and_eq_true, Bool.and_eq_true] at h
    rw [run_append, run_cons, run_nil]
    exact holds_advance_iff h.2.1
  ended := by
    obtain ⟨outermost, hrun, hdepth, hgroups⟩ := run?_endingSteps (start.run steps)
    refine ⟨outermost, hrun, hdepth, hgroups, fun name => ?_⟩
    rw [hgroups]
    exact mem_names_endLevels _ _
  ascending := by
    constructor
    · intro l _
      exact names_pairwise l.groups
    · exact names_pairwise _

/-- A fault at the outermost level, a name that waits there, and levels that have not ended. -/
theorem names_kept_with_level_open :
    let steps : List Step := [.ascend, .name "c", .descend, .name "b", .bar, .settle, .descend,
      .name "a", .settle, .loosen, .ascend, .ascend, .descend, .name "d", .bar]
    start.careful steps = true ∧ KeepsNames steps ∧
      (start.run steps).endAll.names = ["a", "b", "c", "d"] := by
  intro steps
  exact ⟨by decide, names_kept_to_end (by decide), by decide +kernel⟩

end Nesting

end NamedCaptures
