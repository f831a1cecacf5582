import NamedCaptures.Proofs.Brackets.Problems
import NamedCaptures.Proofs.InPlace.Turns

/-!
# Where the procedures stop

Each procedure for patterns takes what it can and leaves the rest to the one that called it. Between
them they take every character: a term is refused only before characters with a role of their own,
all but two of which an alternative takes, and of these two a disjunction takes the bar. So what is
left over behind a disjunction begins with a closing parenthesis, and a group or lookaround whose
contents have been read is closed, unless the text is at its end. This holds behind any problems,
and at any depth of nesting. The main statement is `procedures_stop`.

## Implementation notes

Stray brackets and braces are reported as the same kind of problem as what is left over. To tell who
reports them, the loop over what is left over is written once more, so that it is cut off before
every character but a closing parenthesis (`strictLeftOver`). It does what the loop does.
-/

namespace NamedCaptures.InPlace

open Run Brackets

variable {α β : Type} {text s : List Char} {count depth : Nat} {e e' : Bool} {m : State}

/-- The characters at which no term begins. -/
def noTermChars : List Char :=
  ['*', '+', '?', ')', ']', '{', '}', '|']

/-- Reads on behind every closing parenthesis that is left over. Before any other character the run
is cut off. -/
def strictLeftOver : Nat → Run Unit
  | 0 => cutOff
  | depth + 1 => do
      if (← place).atEnd then return ()
      else if ← nextIs [')'] then
        report .strayCloser
        skipOne
        disjunction depth
        strictLeftOver depth
      else cutOff

/-- The second state has the problems of the first one and further ones. Those that say that a group
or lookaround is not closed are for the end of the text. -/
def UnclosedAtEnd (m m' : State) : Prop :=
  ∃ found, m'.problems = m.problems ++ found ∧
    ∀ p ∈ found, p.kind = .unclosedGroup → p.remaining = ""

/-- The second state is in the same text, at its end or before one of the characters. -/
structure StopsBefore (cs : List Char) (m m' : State) : Prop where
  text : m'.place.text = m.place.text
  next : ∀ c ∈ m'.place.next?, c ∈ cs
  unclosed : UnclosedAtEnd m m'

/-- Where the procedures stop if they begin in the state. -/
structure Stops (m : State) (depth : Nat) : Prop where
  afterAlternative : ∃ m', Returns (alternative depth) m () m' ∧ StopsBefore ['|', ')'] m m'
  afterDisjunction : ∃ m', Returns (disjunction depth) m () m' ∧ StopsBefore [')'] m m'
  /-- Where no term is read, nothing has changed. -/
  afterTerm : ∃ found m', Returns (term depth (disjunction depth)) m found m' ∧
    (found = false ↔ ∀ c ∈ m.place.next?, c ∈ noTermChars) ∧ (found = false → m' = m) ∧
    (found = true → Ahead m m' ∧ UnclosedAtEnd m m')
  afterLookaround : ∀ negative, ∃ m', Returns (lookaround negative (disjunction depth)) m () m' ∧
    UnclosedAtEnd m m'
  afterGroup : ∀ s, m.place.remaining = '(' :: s →
    ∃ m', Returns (group depth (disjunction depth)) m () m' ∧ UnclosedAtEnd m m'
  /-- Only closing parentheses are left over. -/
  afterLeftOver : ∃ m', Returns (do
      disjunction depth
      leftOver depth) m () m' ∧
    Returns (do
      disjunction depth
      strictLeftOver depth) m () m' ∧ StopsBefore [] m m'

/-- Before every other character a term begins. -/
theorem term?_eq_none_iff_next : Pattern.term? s = none ↔ ∀ c ∈ s.head?, c ∈ noTermChars := by
  rw [Pattern.term?_eq_none_iff]
  constructor
  · intro h c hc
    rcases Pattern.Opening.eq_of_none h with rfl | ⟨d, u, rfl, hd⟩
    · cases hc
    · exact Option.some.inj hc ▸ hd
  · intro h
    cases s with
    | nil => rfl
    | cons c u => exact Pattern.opening_of_none (h c rfl) u

/-- A lookaround is only noted as not closed at the end. -/
theorem lookaround_truncated (negative : Bool) (s : List Char) :
    ∀ n ∈ (Pattern.lookaround negative s).notices, n.kind = .unclosedGroup → n.rest = [] := by
  have hfollows := follows_parenthesized (Crosses.refl s) List.suffix_rfl (disjunction_follows s)
  rw [Pattern.lookaround_eq]
  simpa using hfollows.truncated

/-- A run that has no effect may stand on one side only. -/
theorem SameAt.silently {P : Run α} {f : α → Run β} {Q : Run β} {a : α}
    (h : Reads text P s ⟨a, s, []⟩) (hf : SameAt text count e s (f a) Q) :
    SameAt text count e s (P >>= f) Q := by
  intro hs found n hn
  have hrun : P ⟨.ofRest text s, found, n, e⟩ = ends (.ok (a, ⟨.ofRest text s, found, n, e⟩)) := by
    rw [(h e).run hs found n, Reading.ofLexeme_notices, List.map_nil, List.append_nil]
    rfl
  have hbind : (P >>= f) ⟨.ofRest text s, found, n, e⟩ = f a ⟨.ofRest text s, found, n, e⟩ :=
    Returns.bind_eq hrun f
  exact hbind.trans (hf hs found n hn)

/-- Where a disjunction has stopped, the loop over what is left over is not cut off. -/
theorem same_strictLeftOver (h : ∀ c ∈ s.head?, c = ')') (hdepth : 2 * s.length + 1 ≤ depth) :
    SameAt text count false s (strictLeftOver depth) (leftOver depth) := by
  induction depth generalizing s with
  | zero => exact .refl _
  | succ depth ih =>
      rw [strictLeftOver, leftOver]
      refine .reading (reads_place text s) ?_
      cases s with
      | nil => exact .refl _
      | cons c u =>
          obtain rfl := h c rfl
          rw [List.length_cons] at hdepth
          have hrest := (Pattern.disjunction_rest u).length_le
          have hread := performs_disjunction text u (show 2 * u.length + 2 ≤ depth by omega)
          refine .silently (reads_nextIs text (')' :: u) [')']) ?_
          refine .reading (reads_report text (')' :: u) .strayCloser) ?_
          refine .reading (reads_skipOne text u ')') ?_
          refine .behind hread ((carried_gains.disjunction u).leadsTo count) ?_
          exact ih (Pattern.disjunction_next u) (by omega)

theorem same_strictRead (text : List Char) (count : Nat) (s : List Char)
    (h : 2 * s.length + 2 ≤ depth) :
    SameAt text count false s (do
      disjunction depth
      strictLeftOver depth) (do
      disjunction depth
      leftOver depth) := by
  have hrest := (Pattern.disjunction_rest s).length_le
  refine .behind (performs_disjunction text s h) ((carried_gains.disjunction s).leadsTo count) ?_
  exact same_strictLeftOver (Pattern.disjunction_next s) (by omega)

/-- A run that performs a reading leads to the place before what is left of the text. -/
theorem Performs.exists_stop {P : Run α} {a : α} {r : Reading} {n : Nesting}
    (h : Performs m.place.text P m.groupOpen m.place.remaining a r e)
    (hn : levels m.nesting r.steps = .ok n)
    (hclosed : ∀ n ∈ r.notices, n.kind = .unclosedGroup → n.rest = []) :
    ∃ m', Returns P m a m' ∧ m'.place = .ofRest m.place.text r.rest ∧ UnclosedAtEnd m m' := by
  refine ⟨_, h.returns hn, rfl, _, rfl, ?_⟩
  intro p hp hkind
  obtain ⟨n, hmem, rfl⟩ := List.mem_map.mp hp
  have hrest := hclosed n hmem hkind
  simp [Notice.locate, Problem.at, Position.ofRest, hrest]

/-- So the state is before one of the characters, if what is left begins with one of them. -/
theorem Performs.exists_stopsBefore {P : Run α} {a : α} {r : Reading} {b : Bool} {cs : List Char}
    (hm : m.groupOpen = false)
    (h : Performs m.place.text P false m.place.remaining a r false) (hsteps : Gains r.steps b)
    (hclosed : ∀ n ∈ r.notices, n.kind = .unclosedGroup → n.rest = [])
    (hnext : ∀ c ∈ r.rest.head?, c ∈ cs) : ∃ m', Returns P m a m' ∧ StopsBefore cs m m' := by
  obtain ⟨k, hk⟩ := hsteps
  have hsuffix : r.rest <:+ m.place.text := h.suffix.trans (List.suffix_append _ _)
  rw [← hm] at h
  obtain ⟨m', hreturns, hplace, hunclosed⟩ := h.exists_stop (hk m.nesting) hclosed
  refine ⟨m', hreturns, ?_, ?_, hunclosed⟩
  · rw [hplace, Position.text_ofRest hsuffix]
  · rw [hplace]
    exact hnext

section Procedures

variable (hm : m.groupOpen = false)

include hm

theorem alternative_stopsBefore (h : 2 * m.place.remaining.length + 1 ≤ depth) :
    ∃ m', Returns (alternative depth) m () m' ∧ StopsBefore ['|', ')'] m m' :=
  ((carried_performs m.place.text).alternative _ depth h).exists_stopsBefore hm
    (carried_gains.alternative _) (carried_follows.alternative _).truncated
    (Pattern.alternative_next _)

theorem disjunction_stopsBefore (h : 2 * m.place.remaining.length + 2 ≤ depth) :
    ∃ m', Returns (disjunction depth) m () m' ∧ StopsBefore [')'] m m' := by
  apply (performs_disjunction _ _ h).exists_stopsBefore hm (carried_gains.disjunction _)
    (disjunction_follows _).truncated
  intro c hc
  exact List.mem_singleton.mpr (Pattern.disjunction_next _ c hc)

theorem returns_term_none (h : Pattern.term? m.place.remaining = none) (contents : Run Unit) :
    Returns (term depth contents) m false m := by
  obtain ⟨p, found, n, isOpen⟩ := m
  cases hm
  have hperforms : Performs p.text (term depth contents) false p.remaining false
      (.ofSteps [] p.remaining) false := performs_term_none (Pattern.term?_eq_none_iff.mp h)
  have hreturns := Performs.returns (m := ⟨p, found, n, false⟩) hperforms rfl
  rwa [Reading.ofSteps_rest, ofRest_text, Reading.ofSteps_notices, List.map_nil,
    List.append_nil] at hreturns

theorem term_stops (h : 2 * m.place.remaining.length ≤ depth) :
    ∃ found m', Returns (term depth (disjunction depth)) m found m' ∧
      (found = false ↔ ∀ c ∈ m.place.next?, c ∈ noTermChars) ∧ (found = false → m' = m) ∧
      (found = true → Ahead m m' ∧ UnclosedAtEnd m m') := by
  have hnext := term?_eq_none_iff_next (s := m.place.remaining)
  cases hterm : Pattern.term? m.place.remaining with
  | none =>
      refine ⟨false, m, returns_term_none hm hterm _, ?_, fun _ => rfl, nofun⟩
      exact iff_of_true rfl (hnext.mp hterm)
  | some r =>
      obtain ⟨hsuffix, hshorter⟩ := Pattern.term?_rest hterm
      obtain ⟨k, hk⟩ := carried_gains.term hterm
      have hperforms := (carried_performs m.place.text).term hterm depth h
      rw [← hm] at hperforms
      obtain ⟨m', hreturns, hplace, hunclosed⟩ :=
        hperforms.exists_stop (hk m.nesting) (carried_follows.term hterm).truncated
      have hahead := ahead_of_rest hplace hsuffix hshorter
      refine ⟨true, m', hreturns, ?_, nofun, fun _ => ⟨hahead, hunclosed⟩⟩
      refine iff_of_false nofun fun hall => ?_
      rw [hnext.mpr hall] at hterm
      cases hterm

theorem lookaround_stops (h : 2 * m.place.remaining.length + 2 ≤ depth) (negative : Bool) :
    ∃ m', Returns (lookaround negative (disjunction depth)) m () m' ∧ UnclosedAtEnd m m' := by
  obtain ⟨k, hk⟩ := (carried_gains.disjunction m.place.remaining).lookaround negative
  have hperforms := performs_lookaround negative (performs_disjunction m.place.text _ h)
  rw [← hm] at hperforms
  obtain ⟨m', hreturns, -, hunclosed⟩ :=
    hperforms.exists_stop (hk m.nesting) (lookaround_truncated negative _)
  exact ⟨m', hreturns, hunclosed⟩

theorem group_stops (h : 2 * m.place.remaining.length + 2 ≤ depth) {s : List Char}
    (hs : m.place.remaining = '(' :: s) :
    ∃ m', Returns (group depth (disjunction depth)) m () m' ∧ UnclosedAtEnd m m' := by
  rw [hs, List.length_cons] at h
  have hperforms := performs_group_disjunction m.place.text s
    (show 2 * s.length + 2 ≤ depth by omega)
  obtain ⟨own, -, hlevels⟩ := levels_group s
  rw [← hs, ← hm] at hperforms
  obtain ⟨m', hreturns, -, hunclosed⟩ :=
    hperforms.exists_stop (hlevels m.nesting) (follows_group (disjunction_follows _)).truncated
  exact ⟨m', hreturns, hunclosed⟩

theorem leftOver_stops (h : 2 * m.place.remaining.length + 2 ≤ depth) :
    ∃ m', Returns (do
        disjunction depth
        leftOver depth) m () m' ∧
      Returns (do
        disjunction depth
        strictLeftOver depth) m () m' ∧ StopsBefore [] m m' := by
  obtain ⟨b, hsteps⟩ := exists_gains_read m.place.remaining
  have hend : ∀ c ∈ (Pattern.read m.place.remaining).rest.head?, c ∈ ([] : List Char) := by
    rw [Pattern.read_rest]
    nofun
  obtain ⟨m', hreturns, hstops⟩ := (performs_whole _ _ h).exists_stopsBefore hm hsteps
    (read_agrees m.place.remaining).truncated hend
  have hsame := same_strictRead m.place.text m.nesting.depth m.place.remaining h
    (List.suffix_append _ _) m.problems m.nesting rfl
  rw [ofRest_text, ← hm] at hsame
  exact ⟨m', hreturns, hsame.trans hreturns, hstops⟩

end Procedures

theorem Returns.unique {P : Run α} {a b : α} {m' m'' : State} (h : Returns P m a m')
    (h' : Returns P m b m'') : m' = m'' := by
  have hsame := Option.some.inj (h.symm.trans h')
  exact (Prod.mk.inj (Except.ok.inj hsame)).2

theorem strictRead_problems (pattern : String) (h : 2 * pattern.toList.length + 2 ≤ depth) :
    ∃ m, Returns (do
        disjunction depth
        strictLeftOver depth) { place := .start pattern.toList } () m ∧
      m.problems = (NamedCaptures.analyze pattern).problems ∧
      ∀ p ∈ m.problems, p.kind = .unclosedGroup → p.remaining = "" := by
  obtain ⟨m, hread, hstrict, hstops⟩ :=
    leftOver_stops (m := { place := .start pattern.toList }) rfl h
  obtain ⟨m', hreads⟩ := readsTo pattern h
  obtain rfl := hread.unique hreads.read
  obtain ⟨found, hfound, hclosed⟩ := hstops.unclosed
  rw [List.nil_append] at hfound
  exact ⟨m, hstrict, hreads.problems, hfound ▸ hclosed⟩

/-- From any state in which no group is open, the procedures stop where the ones that call them can
go on, and a term that is not read changes nothing. So all that is left over in an analysis are
closing parentheses, and a group or lookaround is not closed only where the text ends. All the
procedures need is that calls may nest twice as deep as the text is long; how much deeper does not
matter. -/
theorem procedures_stop :
    (∀ m : State, m.groupOpen = false → ∀ more,
      Stops m (2 * m.place.remaining.length + 2 + more)) ∧
    ∀ (pattern : String) (more : Nat), ∃ m, Returns (do
        disjunction (2 * pattern.toList.length + 2 + more)
        strictLeftOver (2 * pattern.toList.length + 2 + more))
          { place := .start pattern.toList } () m ∧
      m.problems = (NamedCaptures.analyze pattern).problems ∧
      ∀ p ∈ m.problems, p.kind = .unclosedGroup → p.remaining = "" := by
  constructor
  · intro m hm more
    exact {
      afterAlternative := alternative_stopsBefore hm (by omega)
      afterDisjunction := disjunction_stopsBefore hm (by omega)
      afterTerm := term_stops hm (by omega)
      afterLookaround := lookaround_stops hm (by omega)
      afterGroup := fun _ hs => group_stops hm (by omega) hs
      afterLeftOver := leftOver_stops hm (by omega) }
  · intro pattern more
    exact strictRead_problems pattern (by omega)

/-- Inside a group that is not closed, before a bracket that closes nothing. -/
theorem procedures_stop_before_bracket :
    let m : State := ⟨⟨['(', 'a'], [']', '|', '(', 'b', '\\', 'x']⟩, [], ⟨{}, [{}]⟩, false⟩
    m.groupOpen = false ∧ Returns (term 14 (disjunction 14)) m false m ∧
      ∃ m', Returns (alternative 14) m () m' ∧ StopsBefore ['|', ')'] m m' := by
  intro m
  have hstops := procedures_stop.1 m rfl 0
  obtain ⟨found, m', hreturns, hnext, hunchanged, -⟩ := hstops.afterTerm
  have hnone : found = false := by
    rw [hnext]
    intro c hc
    obtain rfl := Option.some.inj hc
    decide
  obtain rfl := hunchanged hnone
  exact ⟨rfl, hnone ▸ hreturns, hstops.afterAlternative⟩

end NamedCaptures.InPlace
