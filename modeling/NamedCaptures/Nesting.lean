import NamedCaptures.Groups

/-!
# Levels of nesting

A level holds what is known of the named groups inside one group or lookaround, or inside the
whole pattern. A nesting is a level with the levels around it. Groups become optional in two ways:
a level with an alternation bar is settled, or a level is loosened. Ascending from a level hands
its groups to the level around it, where they replace groups of the same names.

## Implementation notes

Ascending is the one step that can fail: the outermost level has none around it. `apply` reports
that as a fault, and `run` leaves such a step out. They agree on all steps that have no fault
(`run_eq_of_run?`).
-/

namespace NamedCaptures

/-- What is known inside one group or lookaround, or inside the whole pattern. -/
structure Level where
  /-- The named groups inside, those of inner levels that have ended included. -/
  groups : Groups := .empty
  /-- Whether an alternation bar stands directly on this level. -/
  hasBar : Bool := false
  /-- The name of the group that is this level, until the level is settled. -/
  ownName : Option String := none
  deriving DecidableEq, Repr, Inhabited

namespace Level

/-- Ends the contents: a bar makes the groups inside optional, and then the group that is this
level, if it has a name, joins them as required. -/
def settle (l : Level) : Level :=
  let inside := if l.hasBar then l.groups.allOptional else l.groups
  { l with
    groups := match l.ownName with
      | some name => inside.insert name .required
      | none => inside
    ownName := none }

/-- Makes every group of the level optional. -/
def loosen (l : Level) : Level :=
  { l with groups := l.groups.allOptional }

/-- Takes over the groups of an inner level. -/
def absorb (l inner : Level) : Level :=
  { l with groups := l.groups.override inner.groups }

end Level

/-- The innermost level, and the levels around it from the inside out. -/
structure Nesting where
  inner : Level
  outer : List Level
  deriving DecidableEq, Repr

namespace Nesting

/-- A step that changes levels. -/
inductive Step where
  /-- A level begins inside the innermost one. -/
  | descend
  /-- The innermost level is a group of this name. -/
  | name (name : String)
  /-- An alternation bar stands on the innermost level. -/
  | bar
  /-- The contents of the innermost level end. -/
  | settle
  /-- The groups of the innermost level become optional. -/
  | loosen
  /-- The innermost level ends. -/
  | ascend
  deriving DecidableEq, Repr

/-- The one misuse of a nesting. -/
inductive Fault where
  /-- The outermost level was to end. -/
  | noOuterLevel
  deriving DecidableEq, Repr

/-- The sentence for a misuse. -/
def Fault.message : Fault → String
  | noOuterLevel => "exit() called without a matching enter()"

/-- The level of a whole pattern, before anything of it is known. -/
def start : Nesting :=
  ⟨{}, []⟩

instance : Inhabited Nesting := ⟨start⟩

/-- The number of groups and lookarounds that have begun and not ended. -/
def depth (n : Nesting) : Nat :=
  n.outer.length

/-- Begins a level. -/
def descend (n : Nesting) : Nesting :=
  ⟨{}, n.inner :: n.outer⟩

/-- Names the innermost level. -/
def name (n : Nesting) (name : String) : Nesting :=
  { n with inner := { n.inner with ownName := some name } }

/-- Records an alternation bar on the innermost level. -/
def bar (n : Nesting) : Nesting :=
  { n with inner := { n.inner with hasBar := true } }

/-- Ends the contents of the innermost level. -/
def settle (n : Nesting) : Nesting :=
  { n with inner := n.inner.settle }

/-- Makes the groups of the innermost level optional. -/
def loosen (n : Nesting) : Nesting :=
  { n with inner := n.inner.loosen }

/-- Ends the innermost level, whose groups go to the level around it. -/
def ascend (n : Nesting) : Except Fault Nesting :=
  match n.outer with
  | [] => .error .noOuterLevel
  | parent :: outer => .ok ⟨parent.absorb n.inner, outer⟩

/-- The groups of the innermost level once its contents have ended. -/
def settledGroups (n : Nesting) : Groups :=
  n.inner.settle.groups

/-- The groups once a level and all levels around it have ended, from the inside out. -/
def endLevels (inner : Level) : List Level → Groups
  | [] => inner.settle.groups
  | parent :: outer => endLevels (parent.absorb inner.settle) outer

/-- The groups once all levels have ended. -/
def endAll (n : Nesting) : Groups :=
  endLevels n.inner n.outer

/-- One step. -/
def apply (n : Nesting) : Step → Except Fault Nesting
  | .descend => .ok n.descend
  | .name name => .ok (n.name name)
  | .bar => .ok n.bar
  | .settle => .ok n.settle
  | .loosen => .ok n.loosen
  | .ascend => n.ascend

/-- Steps in order, up to the first fault. -/
def run? (n : Nesting) (steps : List Step) : Except Fault Nesting :=
  steps.foldlM apply n

/-- One step, or nothing where the step is a fault. -/
def advance (n : Nesting) (step : Step) : Nesting :=
  match n.apply step with
  | .ok m => m
  | .error _ => n

/-- Steps in order, without those that are faults. -/
def run (n : Nesting) (steps : List Step) : Nesting :=
  steps.foldl advance n

/-- A level can end exactly when another one is around it. -/
theorem ascend_eq_error_iff (n : Nesting) (f : Fault) : n.ascend = .error f ↔ n.depth = 0 := by
  cases f
  obtain ⟨inner, _ | ⟨parent, outer⟩⟩ := n <;> simp [ascend, depth]

@[simp]
theorem run_nil (n : Nesting) : n.run [] = n := rfl

@[simp]
theorem run_cons (n : Nesting) (step : Step) (steps : List Step) :
    n.run (step :: steps) = (n.advance step).run steps := rfl

@[simp]
theorem run_append (n : Nesting) (steps more : List Step) :
    n.run (steps ++ more) = (n.run steps).run more :=
  List.foldl_append

/-- Steps without a fault are all taken. -/
theorem run_eq_of_run? {n m : Nesting} {steps : List Step} (h : n.run? steps = .ok m) :
    n.run steps = m := by
  induction steps generalizing n with
  | nil => exact Except.ok.inj h
  | cons step steps ih =>
      rw [run?, List.foldlM_cons] at h
      cases hstep : n.apply step with
      | error f => rw [hstep] at h; cases h
      | ok k =>
          rw [hstep] at h
          rw [run_cons, advance, hstep]
          exact ih h

end Nesting

end NamedCaptures
