import NamedCaptures.Proofs.Grammar.Exactness
import NamedCaptures.Proofs.Groups.Override

/-!
# The groups of a derivation tree

The named groups of a pattern by recursion over its derivation tree, without levels of nesting. The
main statement is `run_steps`: running the steps of a tree adds the groups of the tree to the
innermost level, and its bar, and changes nothing else.
-/

namespace NamedCaptures.Grammar

open Pattern Groups

/-- The groups inside a group, with the group itself as required if it has a name. -/
def Opener.enter (o : Opener) (inside : Groups) : Groups :=
  match o.name? with
  | some name => inside.insert name .required
  | none => inside

theorem get?_enter_self {o : Opener} {name : String} (h : o.name? = some name) (m : Groups) :
    (o.enter m).get? name = some .required := by
  simp [Opener.enter, h]

theorem get?_enter_of_ne {o : Opener} {name : String} (h : o.name? ≠ some name) (m : Groups) :
    (o.enter m).get? name = m.get? name := by
  unfold Opener.enter
  split
  · next own hown =>
      have hne : name ≠ own := by
        rintro rfl
        exact h hown
      rw [get?_insert, if_neg hne]
  · rfl

namespace Tree

/-- The named groups of a tree. Those of a disjunction do not yet depend on whether it has bars:
that counts where the level of the disjunction ends. -/
def groups : {p : Part} → Tree p → Groups
  | _, single a => a.groups
  | _, bar a d => a.groups.override d.groups
  | _, nil => .empty
  | _, cons t a => t.groups.override a.groups
  | _, anchor _ => .empty
  | _, lookaround k d => loosenIf k.negative (loosenIf d.hasBar d.groups)
  | _, leaf _ _ _ => .empty
  | _, group o d q => loosenIf q.allowsNone (o.enter (loosenIf d.hasBar d.groups))

/-- The named groups of a whole pattern. -/
def patternGroups (d : Tree .disjunction) : Groups :=
  loosenIf d.hasBar d.groups

end Tree

/-- The nesting whose innermost level has more groups, and a bar if the condition holds. -/
def gain (n : Nesting) (m : Groups) (b : Bool) : Nesting :=
  { n with inner := { n.inner with
    groups := n.inner.groups.override m
    hasBar := n.inner.hasBar || b } }

theorem gain_gain (n : Nesting) (m k : Groups) (a b : Bool) :
    gain (gain n m a) k b = gain n (m.override k) (a || b) := by
  simp [gain, override_assoc, Bool.or_assoc]

theorem gain_empty (n : Nesting) : gain n .empty false = n := by
  simp [gain]

theorem run_openingSteps (n : Nesting) (name? : Option String) :
    n.run (openingSteps name?) = ⟨{ ownName := name? }, n.inner :: n.outer⟩ := by
  cases name? <;> rfl

/-- A level that began with the given name and got the given groups is settled. -/
theorem advance_settle (n : Nesting) (m : Groups) (b : Bool) (o : Opener) :
    (gain ⟨{ ownName := o.name? }, n.inner :: n.outer⟩ m b).advance .settle =
      ⟨⟨o.enter (loosenIf b m), b, none⟩, n.inner :: n.outer⟩ := by
  cases h : o.name? <;> simp [gain, Nesting.advance, Nesting.apply, Nesting.settle, Level.settle,
    Opener.enter, loosenIf, h]

/-- Where a level ends, its groups go to the level around it. -/
theorem run_ascend (n : Nesting) (m : Groups) (b loosens : Bool) :
    Nesting.run ⟨⟨m, b, none⟩, n.inner :: n.outer⟩
        (if loosens then [.loosen, .ascend] else [.ascend]) =
      gain n (loosenIf loosens m) false := by
  cases loosens <;> simp [gain, loosenIf, Nesting.run, Nesting.advance, Nesting.apply,
    Nesting.loosen, Level.loosen, Nesting.ascend, Level.absorb]

theorem quantifiedSteps_eq (q : Repetition) :
    quantifiedSteps q.quantifier = if q.allowsNone then [.loosen, .ascend] else [.ascend] := by
  unfold Repetition.allowsNone
  cases q.quantifier <;> rfl

/-- Bars belong to disjunctions. -/
theorem Tree.hasBar_eq_false_of_term (t : Tree .term) : t.hasBar = false := by
  cases t <;> rfl

theorem Tree.hasBar_eq_false_of_alternative (a : Tree .alternative) : a.hasBar = false := by
  cases a <;> rfl

theorem advance_bar (n : Nesting) (m : Groups) (b : Bool) :
    (gain n m b).advance .bar = gain n m true := by
  simp [gain, Nesting.advance, Nesting.apply, Nesting.bar]

/-- The steps of a tree add its groups to the innermost level, and its bar, and nothing else. -/
theorem run_steps {p : Part} (t : Tree p) (n : Nesting) :
    n.run t.steps = gain n t.groups t.hasBar := by
  induction t generalizing n with
  | single a ih =>
      rw [Tree.steps, ih, a.hasBar_eq_false_of_alternative]
      rfl
  | bar a d iha ihd =>
      rw [Tree.steps, Nesting.run_append, iha, Nesting.run_cons, advance_bar, ihd, gain_gain,
        Bool.true_or]
      rfl
  | nil => exact (gain_empty n).symm
  | cons t a iht iha =>
      rw [Tree.steps, Nesting.run_append, iht, iha, gain_gain, t.hasBar_eq_false_of_term,
        a.hasBar_eq_false_of_alternative]
      rfl
  | anchor k => exact (gain_empty n).symm
  | lookaround k d ih =>
      have hdescend : n.advance .descend = ⟨{}, n.inner :: n.outer⟩ := rfl
      have hsettle := advance_settle n d.groups d.hasBar .unmarked
      rw [Tree.steps, Nesting.run_cons, hdescend, Nesting.run_append, ih, Nesting.run_cons]
      exact hsettle ▸ run_ascend n _ d.hasBar k.negative
  | leaf s h q => exact (gain_empty n).symm
  | group o d q ih =>
      rw [Tree.steps, Nesting.run_append, run_openingSteps, Nesting.run_append, ih,
        Nesting.run_cons, advance_settle, quantifiedSteps_eq, run_ascend]
      rfl

/-- The outcome for the text of a tree, by the groups of the tree. -/
theorem analyze_eq_patternGroups {pattern : String} {d : Tree .disjunction}
    (h : d.text = pattern.toList) : analyze pattern = .success d.patternGroups := by
  rw [analyze_text h, run_steps]
  simp [gain, Nesting.start, Nesting.settledGroups, Level.settle, Tree.patternGroups, loosenIf]

theorem derivable_of_success {pattern : String} {groups : Groups}
    (h : analyze pattern = .success groups) : Derivable pattern.toList :=
  exists_tree_of_isSuccess (by rw [h]; rfl)

/-- The groups of a well-formed pattern are those of any of its trees. -/
theorem eq_patternGroups_of_success {pattern : String} {groups : Groups}
    (h : analyze pattern = .success groups) {d : Tree .disjunction}
    (hd : d.text = pattern.toList) : groups = d.patternGroups := by
  rw [analyze_eq_patternGroups hd] at h
  exact (Outcome.success.inj h).symm

end NamedCaptures.Grammar
