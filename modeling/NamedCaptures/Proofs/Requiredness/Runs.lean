import Mathlib.Data.Set.Basic
import NamedCaptures.Proofs.Requiredness.Captures

/-!
# Runs of a derivation tree

A run of a tree is one way to match it, without regard to the text that is matched, and binds
names: one alternative of a disjunction, all terms of an alternative, and a number of repetitions
of an atom, of which the last one counts. The main statement is `required_iff_bound_in_every_run`:
a required name is bound in every run, and where names are not repeated, an optional name is left
unbound by some run.

## Implementation notes

Runs are a relation between trees and sets of names, defined by recursion over the tree. The two
directions are inductions over the tree too. An optional name is missed by running the alternative
next to it, by no repetition, or by a run of the subtree that misses it.
-/

namespace NamedCaptures.Grammar

open Pattern Groups

/-- Running a body a number of times binds what the last time binds, and nothing if it is not run
at all. -/
inductive Iterates (body : Set String → Prop) : Nat → Set String → Prop where
  | zero : Iterates body 0 ∅
  | next {k : Nat} {before bound : Set String} (earlier : Iterates body k before)
      (last : body bound) : Iterates body (k + 1) bound

/-- Running an atom as often as its quantifier allows, or once without a quantifier. -/
def Repetition.Runs (q : Repetition) (body : Set String → Prop) (bound : Set String) : Prop :=
  match q.quantifier with
  | none => body bound
  | some r => ∃ k, r.least ≤ k ∧ k ≤ r.greatest ∧ Iterates body k bound

namespace Tree

/-- Some run of the tree binds exactly these names. -/
def Runs : {p : Part} → Tree p → Set String → Prop
  | _, single a => a.Runs
  | _, bar a d => fun bound => a.Runs bound ∨ d.Runs bound
  | _, nil => fun bound => bound = ∅
  | _, cons t a => fun bound =>
      ∃ first others, t.Runs first ∧ a.Runs others ∧ bound = first ∪ others
  | _, anchor _ => fun bound => bound = ∅
  | _, lookaround k d => fun bound =>
      ∃ inside, d.Runs inside ∧ bound = if k.negative then ∅ else inside
  | _, leaf _ _ q => q.Runs fun bound => bound = ∅
  | _, group o d q => q.Runs fun bound =>
      ∃ inside, d.Runs inside ∧ bound = {name | o.name? = some name} ∪ inside

/-- The names of the named groups of a tree, in the order in which the groups close. -/
def names : {p : Part} → Tree p → List String
  | _, single a => a.names
  | _, bar a d => a.names ++ d.names
  | _, nil => []
  | _, cons t a => t.names ++ a.names
  | _, anchor _ => []
  | _, lookaround _ d => d.names
  | _, leaf _ _ _ => []
  | _, group o d _ => d.names ++ o.name?.toList

end Tree

theorem captures_map_name {p : Part} (t : Tree p) (i : Nat) (es : List Enclosure) :
    (t.captures i es).map (·.name) = t.names := by
  induction t generalizing i es with
  | single a ih => exact ih i es
  | bar a d iha ihd => rw [Tree.captures, List.map_append, iha, ihd, Tree.names]
  | nil => rfl
  | cons t a iht iha => rw [Tree.captures, List.map_append, iht, iha, Tree.names]
  | anchor k => rfl
  | lookaround k d ih => exact ih _ _
  | leaf s h q => rfl
  | group o d q ih =>
      rw [Tree.captures, List.map_append, ih, Tree.names]
      cases o.name? <;> rfl

/-- The names of a tree are those of its groups. -/
theorem isSome_get?_groups {p : Part} (t : Tree p) (name : String) :
    (t.groups.get? name).isSome = true ↔ name ∈ t.names := by
  have hrecord := record_captures t 0 []
  rw [List.any_nil, loosenIf, if_neg (by decide)] at hrecord
  rw [← hrecord, isSome_get?_record, ← captures_map_name t 0 [], List.mem_map]

theorem BareQuantifier.least_le_greatest {s : List Char} {q : Quantifier}
    (h : BareQuantifier s q) : q.least ≤ q.greatest := by
  cases h with
  | star => exact Nat.zero_le _
  | plus => decide
  | mark => exact Nat.zero_le _
  | exactly h => exact Nat.le_refl _
  | atLeast h => exact countOf_le_maxCount _
  | between hd he hle => exact hle

theorem Quantification.least_le_greatest {s : List Char} {r : Quantifier}
    (h : Quantification s (some r)) : r.least ≤ r.greatest := by
  cases h with
  | greedy h => exact h.least_le_greatest
  | lazy h => exact h.least_le_greatest

theorem iterates_of_body {body : Set String → Prop} {bound : Set String} (h : body bound)
    (k : Nat) : Iterates body (k + 1) bound := by
  induction k with
  | zero => exact .next .zero h
  | succ k ih => exact .next ih h

namespace Repetition

variable {body : Set String → Prop} {bound : Set String}

/-- An atom is not run at all, or what it binds is what its last run binds. -/
theorem Runs.cases {q : Repetition} (h : q.Runs body bound) :
    (q.allowsNone = true ∧ bound = ∅) ∨ body bound := by
  unfold Runs at h
  unfold allowsNone
  cases hq : q.quantifier with
  | none =>
      rw [hq] at h
      exact Or.inr h
  | some r =>
      rw [hq] at h
      obtain ⟨k, hleast, -, hruns⟩ := h
      cases hruns with
      | zero =>
          refine Or.inl ⟨?_, rfl⟩
          simpa [Quantifier.allowsNone] using hleast
      | next earlier last => exact Or.inr last

theorem runs_none {q : Repetition} (h : q.allowsNone = true) : q.Runs body ∅ := by
  obtain ⟨r, hq, hleast⟩ := (any_allowsNone_iff q.quantifier).mp h
  rw [Runs, hq]
  exact ⟨0, by omega, Nat.zero_le _, .zero⟩

theorem runs_of_body {q : Repetition} (h : q.allowsNone = false) (hbody : body bound) :
    q.Runs body bound := by
  unfold Runs
  cases hq : q.quantifier with
  | none => exact hbody
  | some r =>
      have hle := (hq ▸ q.derived).least_le_greatest
      have hpos : r.least ≠ 0 := by
        simpa [allowsNone, hq, Quantifier.allowsNone] using h
      obtain ⟨k, hk⟩ := Nat.exists_eq_succ_of_ne_zero hpos
      exact ⟨r.least, Nat.le_refl _, hle, hk ▸ iterates_of_body hbody k⟩

theorem exists_runs (q : Repetition) (h : ∃ bound, body bound) : ∃ bound, q.Runs body bound := by
  cases hq : q.allowsNone with
  | true => exact ⟨∅, runs_none hq⟩
  | false =>
      obtain ⟨bound, hbody⟩ := h
      exact ⟨bound, runs_of_body hq hbody⟩

end Repetition

theorem exists_runs {p : Part} (t : Tree p) : ∃ bound, t.Runs bound := by
  induction t with
  | single a ih => exact ih
  | bar a d iha ihd =>
      obtain ⟨bound, h⟩ := iha
      exact ⟨bound, Or.inl h⟩
  | nil => exact ⟨∅, rfl⟩
  | cons t a iht iha =>
      obtain ⟨first, hfirst⟩ := iht
      obtain ⟨others, hothers⟩ := iha
      exact ⟨first ∪ others, first, others, hfirst, hothers, rfl⟩
  | anchor k => exact ⟨∅, rfl⟩
  | lookaround k d ih =>
      obtain ⟨inside, h⟩ := ih
      exact ⟨_, inside, h, rfl⟩
  | leaf s h q => exact q.exists_runs ⟨∅, rfl⟩
  | group o d q ih =>
      obtain ⟨inside, h⟩ := ih
      exact q.exists_runs ⟨_, inside, h, rfl⟩

/-- A run binds names of the tree only. -/
theorem Tree.Runs.mem_names {p : Part} {t : Tree p} {bound : Set String} (h : t.Runs bound)
    {name : String} (hname : name ∈ bound) : name ∈ t.names := by
  induction t generalizing bound with
  | single a ih => exact ih h hname
  | bar a d iha ihd =>
      rcases h with h | h
      · exact List.mem_append_left _ (iha h hname)
      · exact List.mem_append_right _ (ihd h hname)
  | nil => cases h ▸ hname
  | cons t a iht iha =>
      obtain ⟨first, others, hfirst, hothers, rfl⟩ := h
      rcases hname with hname | hname
      · exact List.mem_append_left _ (iht hfirst hname)
      · exact List.mem_append_right _ (iha hothers hname)
  | anchor k => cases h ▸ hname
  | lookaround k d ih =>
      obtain ⟨inside, hinside, rfl⟩ := h
      split at hname
      · cases hname
      · exact ih hinside hname
  | leaf s hs q =>
      rcases h.cases with ⟨-, rfl⟩ | rfl <;> cases hname
  | group o d q ih =>
      rcases h.cases with ⟨-, rfl⟩ | ⟨inside, hinside, rfl⟩
      · cases hname
      · rcases hname with hname | hname
        · exact List.mem_append_right _ (by simpa using hname)
        · exact List.mem_append_left _ (ih hinside hname)

/-- What is required on a level without bars is bound in every run. -/
theorem Tree.Runs.binds_required {p : Part} {t : Tree p} {bound : Set String} (h : t.Runs bound)
    {name : String} (hbar : t.hasBar = false) (hname : t.groups.get? name = some .required) :
    name ∈ bound := by
  induction t generalizing bound with
  | single a ih => exact ih h a.hasBar_eq_false_of_alternative hname
  | bar a d iha ihd => cases hbar
  | nil => cases hname
  | cons t a iht iha =>
      obtain ⟨first, others, hfirst, hothers, rfl⟩ := h
      rw [Tree.groups, get?_override] at hname
      cases ha : a.groups.get? name with
      | none =>
          rw [ha, Option.none_or] at hname
          exact Or.inl (iht hfirst t.hasBar_eq_false_of_term hname)
      | some r =>
          rw [ha, Option.some_or] at hname
          exact Or.inr (iha hothers a.hasBar_eq_false_of_alternative (ha.trans hname))
  | anchor k => cases hname
  | lookaround k d ih =>
      obtain ⟨inside, hinside, rfl⟩ := h
      rw [Tree.groups, get?_loosenIf_eq_required_iff, get?_loosenIf_eq_required_iff] at hname
      obtain ⟨hpositive, hbar, hname⟩ := hname
      rw [hpositive, if_neg (by decide)]
      exact ih hinside hbar hname
  | leaf s hs q => cases hname
  | group o d q ih =>
      rw [Tree.groups, get?_loosenIf_eq_required_iff] at hname
      obtain ⟨hsome, hname⟩ := hname
      rcases h.cases with ⟨hnone, -⟩ | ⟨inside, hinside, rfl⟩
      · rw [hsome] at hnone
        cases hnone
      · by_cases hown : o.name? = some name
        · exact Or.inl hown
        · rw [get?_enter_of_ne hown, get?_loosenIf_eq_required_iff] at hname
          exact Or.inr (ih hinside hname.1 hname.2)

/-- Some run of the tree does not bind the name. -/
def Tree.Misses {p : Part} (t : Tree p) (name : String) : Prop :=
  ∃ bound, t.Runs bound ∧ name ∉ bound

theorem misses_of_not_mem {p : Part} {t : Tree p} {name : String} (h : name ∉ t.names) :
    t.Misses name := by
  obtain ⟨bound, hrun⟩ := exists_runs t
  exact ⟨bound, hrun, fun hbound => h (hrun.mem_names hbound)⟩

theorem misses_cons {t : Tree .term} {a : Tree .alternative} {name : String}
    (ht : t.Misses name) (ha : a.Misses name) : (Tree.cons t a).Misses name := by
  obtain ⟨first, hfirst, hmissed⟩ := ht
  obtain ⟨others, hothers, hmissed'⟩ := ha
  refine ⟨first ∪ others, ⟨first, others, hfirst, hothers, rfl⟩, ?_⟩
  rintro (hbound | hbound)
  · exact hmissed hbound
  · exact hmissed' hbound

theorem misses_lookaround {k : Lookaround} {d : Tree .disjunction} {name : String}
    (h : k.negative = true ∨ d.Misses name) : (Tree.lookaround k d).Misses name := by
  cases hnegative : k.negative with
  | true =>
      obtain ⟨inside, hinside⟩ := exists_runs d
      exact ⟨∅, ⟨inside, hinside, by rw [hnegative]; rfl⟩, fun h => h⟩
  | false =>
      obtain ⟨inside, hinside, hmissed⟩ := h.resolve_left fun h => by simp [h] at hnegative
      exact ⟨inside, ⟨inside, hinside, by rw [hnegative]; rfl⟩, hmissed⟩

theorem misses_group {o : Opener} {d : Tree .disjunction} {q : Repetition} {name : String}
    (h : q.allowsNone = true ∨ (o.name? ≠ some name ∧ d.Misses name)) :
    (Tree.group o d q).Misses name := by
  cases hnone : q.allowsNone with
  | true => exact ⟨∅, Repetition.runs_none hnone, fun h => h⟩
  | false =>
      obtain ⟨hown, inside, hinside, hmissed⟩ := h.resolve_left fun h => by simp [h] at hnone
      refine ⟨_, Repetition.runs_of_body hnone ⟨inside, hinside, rfl⟩, ?_⟩
      rintro (hbound | hbound)
      · exact hown hbound
      · exact hmissed hbound

theorem mem_names_of_optional {p : Part} {t : Tree p} {name : String}
    (h : t.groups.get? name = some .optional) : name ∈ t.names :=
  (isSome_get?_groups t name).mp (by rw [h]; rfl)

/-- If no name is repeated, some run misses what is optional, be it only for a bar on the level of
the tree. -/
theorem misses_of_optional {p : Part} (t : Tree p) (hnodup : t.names.Nodup) {name : String}
    (hname : (t.hasBar = true ∧ name ∈ t.names) ∨ t.groups.get? name = some .optional) :
    t.Misses name := by
  induction t with
  | single a ih =>
      refine ih hnodup (Or.inr ?_)
      exact hname.resolve_left fun h => Bool.false_ne_true h.1
  | bar a d iha ihd =>
      have hmem : name ∈ (Tree.bar a d).names := hname.elim And.right mem_names_of_optional
      obtain ⟨-, -, hdisjoint⟩ := List.nodup_append.mp hnodup
      -- The name is in one of the alternatives only, so a run of the other one misses it.
      rcases List.mem_append.mp hmem with hmem | hmem
      · obtain ⟨bound, hrun, hmissed⟩ := misses_of_not_mem fun h => hdisjoint name hmem name h rfl
        exact ⟨bound, Or.inr hrun, hmissed⟩
      · obtain ⟨bound, hrun, hmissed⟩ := misses_of_not_mem fun h => hdisjoint name h name hmem rfl
        exact ⟨bound, Or.inl hrun, hmissed⟩
  | nil => simp [Tree.hasBar, Tree.groups] at hname
  | cons t a iht iha =>
      have hopt : (t.groups.override a.groups).get? name = some .optional :=
        hname.resolve_left fun h => Bool.false_ne_true h.1
      obtain ⟨ht, ha, hdisjoint⟩ := List.nodup_append.mp hnodup
      rw [get?_override] at hopt
      cases hin : a.groups.get? name with
      | none =>
          rw [hin, Option.none_or] at hopt
          have hmem := mem_names_of_optional hopt
          apply misses_cons (iht ht (Or.inr hopt))
          apply misses_of_not_mem
          intro h
          exact hdisjoint name hmem name h rfl
      | some r =>
          rw [hin, Option.some_or] at hopt
          have hopt := hin.trans hopt
          have hmem := mem_names_of_optional hopt
          apply misses_cons (misses_of_not_mem ?_) (iha ha (Or.inr hopt))
          intro h
          exact hdisjoint name h name hmem rfl
  | anchor k => simp [Tree.hasBar, Tree.groups] at hname
  | lookaround k d ih =>
      have hopt : (loosenIf k.negative (loosenIf d.hasBar d.groups)).get? name = some .optional :=
        hname.resolve_left fun h => Bool.false_ne_true h.1
      apply misses_lookaround
      rcases get?_loosenIf_eq_optional_iff.mp hopt with ⟨hnegative, -⟩ | hopt
      · exact Or.inl hnegative
      · rw [get?_loosenIf_eq_optional_iff, isSome_get?_groups] at hopt
        exact Or.inr (ih hnodup hopt)
  | leaf s h q => simp [Tree.hasBar, Tree.groups] at hname
  | group o d q ih =>
      have hopt : (loosenIf q.allowsNone (o.enter (loosenIf d.hasBar d.groups))).get? name =
          some .optional := hname.resolve_left fun h => Bool.false_ne_true h.1
      apply misses_group
      rcases get?_loosenIf_eq_optional_iff.mp hopt with ⟨hnone, -⟩ | hopt
      · exact Or.inl hnone
      · have hown : o.name? ≠ some name := by
          intro hown
          rw [get?_enter_self hown] at hopt
          cases hopt
        rw [get?_enter_of_ne hown, get?_loosenIf_eq_optional_iff, isSome_get?_groups] at hopt
        exact Or.inr ⟨hown, ih (List.nodup_append.mp hnodup).1 hopt⟩

theorem required_bound_in_runs {d : Tree .disjunction} {name : String}
    (h : d.patternGroups.get? name = some .required) {bound : Set String} (hrun : d.Runs bound) :
    name ∈ bound := by
  obtain ⟨hbar, hname⟩ := get?_loosenIf_eq_required_iff.mp h
  exact hrun.binds_required hbar hname

theorem exists_run_without_optional {d : Tree .disjunction} (hnodup : d.names.Nodup)
    {name : String} (h : d.patternGroups.get? name = some .optional) :
    ∃ bound, d.Runs bound ∧ name ∉ bound := by
  rw [Tree.patternGroups, get?_loosenIf_eq_optional_iff, isSome_get?_groups] at h
  exact misses_of_optional d hnodup h

theorem required_iff_of_nodup {d : Tree .disjunction} (hnodup : d.names.Nodup) (name : String) :
    d.patternGroups.get? name = some .required ↔ ∀ bound, d.Runs bound → name ∈ bound := by
  constructor
  · intro hname bound hrun
    exact required_bound_in_runs hname hrun
  intro hall
  cases hname : d.patternGroups.get? name with
  | none =>
      obtain ⟨bound, hrun⟩ := exists_runs d
      have hmem := hrun.mem_names (hall bound hrun)
      rw [← isSome_get?_groups] at hmem
      rw [Tree.patternGroups, get?_loosenIf, Option.map_eq_none_iff] at hname
      rw [hname] at hmem
      cases hmem
  | some r =>
      cases r with
      | required => rfl
      | optional =>
          obtain ⟨bound, hrun, hmissed⟩ := exists_run_without_optional hnodup hname
          exact absurd (hall bound hrun) hmissed

/-- Every required name is bound in every run. If no name is repeated, every optional name is left
unbound by some run, so a name is required exactly if all runs bind it. -/
theorem required_iff_bound_in_every_run {pattern : String} {groups : Groups}
    (h : analyze pattern = .success groups) :
    Derivable pattern.toList ∧ ∀ d : Tree .disjunction, d.text = pattern.toList →
      (∀ name, groups.get? name = some .required → ∀ bound, d.Runs bound → name ∈ bound) ∧
      ((d.patternCaptures.map (·.name)).Nodup →
        (∀ name, groups.get? name = some .optional → ∃ bound, d.Runs bound ∧ name ∉ bound) ∧
        ∀ name, groups.get? name = some .required ↔ ∀ bound, d.Runs bound → name ∈ bound) := by
  constructor
  · exact derivable_of_success h
  intro d hd
  obtain rfl := eq_patternGroups_of_success h hd
  constructor
  · intro name hname bound hrun
    exact required_bound_in_runs hname hrun
  intro hnodup
  rw [Tree.patternCaptures, captures_map_name] at hnodup
  constructor
  · intro name hname
    exact exists_run_without_optional hnodup hname
  · intro name
    exact required_iff_of_nodup hnodup name

/-- A group around one plain character. -/
def letterGroup (name letter : Char) (hname : Identifier.isStart name = true)
    (hletter : letter ∉ syntaxChars) (q : Repetition) : Tree .term :=
  .group (.named [name] [name] (.mk (.literal name) hname .nil))
    (.single (.cons (.leaf [letter] (.plain hletter) ⟨[], none, .once⟩) .nil)) q

theorem missed_and_bound_in_runs :
    ∃ d : Tree .disjunction, d.text = "(?<a>x)?(?<b>y)".toList ∧
      (∃ bound, d.Runs bound ∧ "a" ∉ bound) ∧ ∀ bound, d.Runs bound → "b" ∈ bound := by
  have h : analyze "(?<a>x)?(?<b>y)" =
      .success ⟨[("a", .optional), ("b", .required)], by decide⟩ := by decide +kernel
  have ha : Identifier.isStart 'a' = true := by decide +kernel
  have hb : Identifier.isStart 'b' = true := by decide +kernel
  refine ⟨.single (.cons (letterGroup 'a' 'x' ha (by decide) ⟨['?'], _, .greedy .mark⟩)
    (.cons (letterGroup 'b' 'y' hb (by decide) ⟨[], none, .once⟩) .nil)), rfl, ?_⟩
  have hruns := (required_iff_bound_in_every_run h).2
  constructor
  · refine ((hruns _ (by rfl)).2 ?_).1 "a" rfl
    change ["a", "b"].Nodup
    decide
  · exact (hruns _ (by rfl)).1 "b" rfl

end NamedCaptures.Grammar
