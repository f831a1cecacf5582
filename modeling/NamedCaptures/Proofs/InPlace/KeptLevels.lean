import NamedCaptures.Proofs.Brackets.OwnLevel
import NamedCaptures.Proofs.InPlace.Counting

/-!
# Levels are kept

A level begins in one procedure and may end in another one, and whether it is still to end is told
by a mark in the state. Still every procedure comes back to the level on which it began, whatever
the text is and whatever is known on the levels: it loses no name, and only a disjunction with a bar
directly on the level leaves a bar there. A group leaves exactly its own level open. So the levels
are as many as the groups and lookarounds that are being read, at any time. The main statement is
`levels_kept`.
-/

namespace NamedCaptures.InPlace

open Run Grammar Brackets

variable {α : Type} {m : State} {depth : Nat}

/-- From the state, the run comes to its end with that value, in that other state. -/
def Returns (P : Run α) (m : State) (a : α) (m' : State) : Prop :=
  P m = ends (.ok (a, m'))

/-- The second state is on the level of the first one, with no group open. That level has not lost a
name. -/
structure OnLevel (m m' : State) : Prop where
  closed : m'.groupOpen = false
  outer : m'.nesting.outer = m.nesting.outer
  ownName : m'.nesting.inner.ownName = m.nesting.inner.ownName
  names : m.nesting.inner.groups.names ⊆ m'.nesting.inner.groups.names

/-- What the procedures do with the levels if they begin in the state. -/
structure KeepsLevels (m : State) (depth : Nat) : Prop where
  afterTerm : ∃ found m', Returns (term depth (disjunction depth)) m found m' ∧ OnLevel m m' ∧
    m'.nesting.inner.hasBar = m.nesting.inner.hasBar
  afterAlternative : ∃ m', Returns (alternative depth) m () m' ∧ OnLevel m m' ∧
    m'.nesting.inner.hasBar = m.nesting.inner.hasBar
  afterLookaround : ∀ negative, ∃ m', Returns (lookaround negative (disjunction depth)) m () m' ∧
    OnLevel m m' ∧ m'.nesting.inner.hasBar = m.nesting.inner.hasBar
  /-- A disjunction ends where its level ends in a plain scan. The bars of the level are those that
  the scan finds directly on it. -/
  afterDisjunction : ∃ m', Returns (disjunction depth) m () m' ∧ OnLevel m m' ∧
    m'.place.remaining = (extent m.place.remaining).rest ∧
    m'.nesting.inner.hasBar = (m.nesting.inner.hasBar || (extent m.place.remaining).hasBar)
  /-- A group leaves its own level open, around which are the levels from before. -/
  afterGroup : ∀ s, m.place.remaining = '(' :: s →
    ∃ m', Returns (group depth (disjunction depth)) m () m' ∧ m'.groupOpen = true ∧
      m'.nesting.outer = m.nesting.inner :: m.nesting.outer ∧ m'.nesting.inner.ownName = none

/-- The analysis comes to the end of the pattern in that state, also if it counts what is being read
and is cut off where the levels are not as many. No level is left, and no group is open. -/
structure ReadsTo (pattern : String) (depth : Nat) (m : State) : Prop where
  counted : Returns (countedRead depth) { place := .start pattern.toList } () m
  read : Returns (do
    disjunction depth
    leftOver depth) { place := .start pattern.toList } () m
  problems : m.problems = (NamedCaptures.analyze pattern).problems
  depth_eq : m.nesting.depth = 0
  closed : m.groupOpen = false

/-- Every place is a place of its text. -/
theorem ofRest_text (p : Position) : Position.ofRest p.text p.remaining = p := by
  rw [Position.text, Position.ofRest_append]

theorem Performs.returns {P : Run α} {a : α} {r : Reading} {e' : Bool} {n : Nesting}
    (h : Performs m.place.text P m.groupOpen m.place.remaining a r e')
    (hn : levels m.nesting r.steps = .ok n) :
    Returns P m a ⟨.ofRest m.place.text r.rest,
      m.problems ++ r.notices.map (·.locate m.place.text), n, e'⟩ := by
  have hrun := h.run (List.suffix_append _ _) m.problems m.nesting
  rw [ofRest_text, hn] at hrun
  exact hrun

/-- The state behind a lexeme that is read at its place. The levels are as they were. -/
def State.behind (m : State) (l : Lexeme α) : State :=
  { m with
    place := .ofRest m.place.text l.rest
    problems := m.problems ++ l.notices.map (·.locate m.place.text) }

theorem Reads.returns {P : Run α} {l : Lexeme α}
    (h : Reads m.place.text P m.place.remaining l) : Returns P m l.value (m.behind l) :=
  (h m.groupOpen).returns rfl

theorem names_subset_override (m k : Groups) : m.names ⊆ (m.override k).names := by
  intro name hname
  rw [Groups.mem_names_iff] at hname ⊢
  rw [Groups.get?_override, Option.isSome_or, hname, Bool.or_true]

/-- A run that gains groups, and perhaps a bar, for its level stays on it. -/
theorem exists_onLevel {P : Run α} {a : α} {r : Reading} {b : Bool} (hm : m.groupOpen = false)
    (h : Performs m.place.text P false m.place.remaining a r false) (hsteps : Gains r.steps b) :
    ∃ m', Returns P m a m' ∧ OnLevel m m' ∧ m'.place.remaining = r.rest ∧
      m'.nesting.inner.hasBar = (m.nesting.inner.hasBar || b) := by
  obtain ⟨k, hk⟩ := hsteps
  rw [← hm] at h
  refine ⟨_, h.returns (hk m.nesting), ⟨hm, rfl, rfl, ?_⟩, rfl, rfl⟩
  exact names_subset_override _ _

theorem exists_onLevel_withoutBar {P : Run α} {a : α} {r : Reading} (hm : m.groupOpen = false)
    (h : Performs m.place.text P false m.place.remaining a r false)
    (hsteps : Gains r.steps false) :
    ∃ m', Returns P m a m' ∧ OnLevel m m' ∧
      m'.nesting.inner.hasBar = m.nesting.inner.hasBar := by
  obtain ⟨m', hreturns, hlevel, -, hbar⟩ := exists_onLevel hm h hsteps
  exact ⟨m', hreturns, hlevel, by rw [hbar, Bool.or_false]⟩

section Procedures

variable (hm : m.groupOpen = false)

include hm

theorem afterTerm (h : 2 * m.place.remaining.length ≤ depth) :
    ∃ found m', Returns (term depth (disjunction depth)) m found m' ∧ OnLevel m m' ∧
      m'.nesting.inner.hasBar = m.nesting.inner.hasBar := by
  cases hterm : Pattern.term? m.place.remaining with
  | none =>
      have hperforms : Performs m.place.text (term depth (disjunction depth)) false
          m.place.remaining false (.ofSteps [] m.place.remaining) false :=
        performs_term_none (Pattern.term?_eq_none_iff.mp hterm)
      exact ⟨false, exists_onLevel_withoutBar hm hperforms .nil⟩
  | some r =>
      have hperforms := (carried_performs m.place.text).term hterm depth h
      exact ⟨true, exists_onLevel_withoutBar hm hperforms (carried_gains.term hterm)⟩

theorem afterAlternative (h : 2 * m.place.remaining.length + 1 ≤ depth) :
    ∃ m', Returns (alternative depth) m () m' ∧ OnLevel m m' ∧
      m'.nesting.inner.hasBar = m.nesting.inner.hasBar :=
  exists_onLevel_withoutBar hm ((carried_performs m.place.text).alternative _ depth h)
    (carried_gains.alternative _)

theorem afterLookaround (h : 2 * m.place.remaining.length + 2 ≤ depth) (negative : Bool) :
    ∃ m', Returns (lookaround negative (disjunction depth)) m () m' ∧ OnLevel m m' ∧
      m'.nesting.inner.hasBar = m.nesting.inner.hasBar :=
  exists_onLevel_withoutBar hm (performs_lookaround negative (performs_disjunction _ _ h))
    ((carried_gains.disjunction _).lookaround negative)

theorem afterDisjunction (h : 2 * m.place.remaining.length + 2 ≤ depth) :
    ∃ m', Returns (disjunction depth) m () m' ∧ OnLevel m m' ∧
      m'.place.remaining = (extent m.place.remaining).rest ∧
      m'.nesting.inner.hasBar =
        (m.nesting.inner.hasBar || (extent m.place.remaining).hasBar) := by
  rw [disjunction_extent]
  exact exists_onLevel hm (performs_disjunction _ _ h) (carried_gains.disjunction _)

theorem afterGroup (h : 2 * m.place.remaining.length + 2 ≤ depth) {s : List Char}
    (hs : m.place.remaining = '(' :: s) :
    ∃ m', Returns (group depth (disjunction depth)) m () m' ∧ m'.groupOpen = true ∧
      m'.nesting.outer = m.nesting.inner :: m.nesting.outer ∧
      m'.nesting.inner.ownName = none := by
  rw [hs, List.length_cons] at h
  have hperforms := performs_group_disjunction m.place.text s
    (show 2 * s.length + 2 ≤ depth by omega)
  obtain ⟨own, hname, hlevels⟩ := levels_group s
  rw [← hs, ← hm] at hperforms
  exact ⟨_, hperforms.returns (hlevels m.nesting), rfl, rfl, hname⟩

end Procedures

theorem readsTo (pattern : String) (h : 2 * pattern.toList.length + 2 ≤ depth) :
    ∃ m, ReadsTo pattern depth m := by
  have hstart : Position.start pattern.toList = .ofRest pattern.toList pattern.toList := by
    simp [Position.start, Position.ofRest]
  obtain ⟨inner, hlevels, -⟩ := balanced_read pattern.toList .start
  have hread := (performs_whole pattern.toList pattern.toList h).run List.suffix_rfl [] .start
  have hcounted := same_countedRead pattern.toList pattern.toList h List.suffix_rfl [] .start rfl
  rw [hlevels, ← hstart] at hread
  rw [← hstart, hread] at hcounted
  exact ⟨_, hcounted, hread, (problems_analyze pattern).symm, rfl, rfl⟩

/-- From any state in which no group is open, the procedures keep to their levels, and in an
analysis the levels are as many as the groups and lookarounds that are being read. All they need is
that calls may nest twice as deep as the text is long; how much deeper does not matter. -/
theorem levels_kept :
    (∀ m : State, m.groupOpen = false → ∀ more,
      KeepsLevels m (2 * m.place.remaining.length + 2 + more)) ∧
    ∀ (pattern : String) (more : Nat), ∃ m : State,
      ReadsTo pattern (2 * pattern.toList.length + 2 + more) m := by
  constructor
  · intro m hm more
    exact {
      afterTerm := afterTerm hm (by omega)
      afterAlternative := afterAlternative hm (by omega)
      afterLookaround := afterLookaround hm (by omega)
      afterDisjunction := afterDisjunction hm (by omega)
      afterGroup := fun _ hs => afterGroup hm (by omega) hs }
  · intro pattern more
    exact readsTo pattern (by omega)

theorem levels_kept_in_named_group :
    let m : State := ⟨⟨['(', '?', '<', 'n', '>'], ['(', '?', '=', '(', 'b', '|', 'c']⟩, [],
      ⟨{ ownName := some "n" }, [{}]⟩, false⟩
    m.groupOpen = false ∧ m.place.remaining = '(' :: ['?', '=', '(', 'b', '|', 'c'] ∧
      ∃ m', Returns (group 16 (disjunction 16)) m () m' ∧ m'.groupOpen = true ∧
        m'.nesting.outer = [{ ownName := some "n" }, {}] ∧ m'.nesting.inner.ownName = none := by
  intro m
  have hkept := (levels_kept.1 m rfl 0).afterGroup _ rfl
  exact ⟨rfl, rfl, hkept⟩

end NamedCaptures.InPlace
