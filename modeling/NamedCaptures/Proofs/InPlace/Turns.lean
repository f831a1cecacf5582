import NamedCaptures.Proofs.InPlace.KeptLevels
import NamedCaptures.Proofs.Problems.Count

/-!
# Loops come to their ends

Some procedures report a problem and leave the place where it is, and rely on their caller to go on.
Still no loop of the analysis in place is made of such turns: wherever a turn begins, it leads to a
place farther on in the text, unless the loop is done with it. What is inside a group or lookaround
is only read from places behind its beginning. So the loops come to their ends because the text
does, and so does the analysis. The main statement is `loops_advance`, together with a bound for
what is found on the way.
-/

namespace NamedCaptures.InPlace

open Run Grammar

variable {σ α β : Type} {text s : List Char} {depth : Nat} {m m' : State}

/-- The place of the second state is farther on in the same text. -/
structure Ahead (m m' : State) : Prop where
  text : m'.place.text = m.place.text
  farther : m.place.consumed.length < m'.place.consumed.length

/-- From the state, the loop comes to its end with that value, in that other state. All turns but
the last one lead ahead. -/
inductive Rounds (turn : Nat → σ → Run (Turn σ α)) : Nat → σ → State → α → State → Prop where
  | last {depth : Nat} {x : σ} {m m' : State} {a : α} :
      Returns (turn depth x) m (.done a) m' → Rounds turn (depth + 1) x m a m'
  | next {depth : Nat} {x x' : σ} {m m' m'' : State} {a : α} :
      Returns (turn depth x) m (.again x') m' → Ahead m m' → Rounds turn depth x' m' a m'' →
        Rounds turn (depth + 1) x m a m''

theorem Returns.bind_eq {P : Run α} {a : α} (h : Returns P m a m') (f : α → Run β) :
    (P >>= f) m = f a m' := by
  have hbind : (P >>= f) m = P m >>= fun x => f x.1 x.2 := rfl
  rw [hbind, h]
  rfl

theorem Rounds.returns {turn : Nat → σ → Run (Turn σ α)} {x : σ} {a : α}
    (h : Rounds turn depth x m a m') : Returns (loop turn depth x) m a m' := by
  induction h with
  | last hturn => exact hturn.bind_eq _
  | next hturn _ _ ih => exact (hturn.bind_eq _).trans ih

theorem Ahead.remaining_lt (h : Ahead m m') :
    m'.place.remaining.length < m.place.remaining.length := by
  have htext := congrArg List.length h.text
  have hfarther := h.farther
  simp only [Position.text, List.length_append] at htext
  omega

theorem ahead_of_rest {u : List Char} (hplace : m'.place = .ofRest m.place.text u)
    (hu : u <:+ m.place.remaining) (hlt : u.length < m.place.remaining.length) : Ahead m m' := by
  have htext : m'.place.text = m.place.text := by
    rw [hplace]
    exact Position.text_ofRest (hu.trans (List.suffix_append _ _))
  have hlength := congrArg List.length htext
  have hrest : m'.place.remaining = u := by
    rw [hplace]
    rfl
  simp only [Position.text, List.length_append, hrest] at hlength
  exact ⟨htext, by omega⟩

/-- From the place before `s`, the turn performs a reading, which is one of some text unless the
loop is done. -/
def Turns (text : List Char) (turn : Run (Turn σ α)) (s : List Char) : Prop :=
  ∃ t r b, Performs text turn false s t r false ∧ Gains r.steps b ∧
    ∀ x, t = .again x → r.rest.length < s.length

/-- Where every turn is one of some text unless the loop is done, the loop comes to its end. -/
theorem exists_rounds {turn : Nat → σ → Run (Turn σ α)}
    (hturn : ∀ text s depth x, 2 * s.length + 1 ≤ depth → Turns text (turn depth x) s) (x : σ)
    (hm : m.groupOpen = false) (hdepth : 2 * m.place.remaining.length + 2 ≤ depth) :
    ∃ a m', Rounds turn depth x m a m' := by
  -- The induction is on the depth, which is enough as every turn but the last shortens the text.
  induction depth generalizing x m with
  | zero => exact absurd hdepth (Nat.not_succ_le_zero _)
  | succ depth ih =>
      obtain ⟨t, r, b, hperforms, ⟨k, hk⟩, hshorter⟩ :=
        hturn m.place.text m.place.remaining depth x (by omega)
      rw [← hm] at hperforms
      obtain ⟨m', hreturns, hplace, hclosed⟩ : ∃ m', Returns (turn depth x) m t m' ∧
          m'.place = .ofRest m.place.text r.rest ∧ m'.groupOpen = false :=
        ⟨_, hperforms.returns (hk m.nesting), rfl, hm⟩
      cases t with
      | done a => exact ⟨a, m', .last hreturns⟩
      | again x' =>
          have hahead := ahead_of_rest hplace hperforms.suffix (hshorter x' rfl)
          have hlt := hahead.remaining_lt
          obtain ⟨a, m'', hrounds⟩ := ih x' hclosed (by omega)
          exact ⟨a, m'', .next hreturns hahead hrounds⟩

theorem Turns.of_reads {turn : Run (Turn σ α)} {l : Lexeme (Turn σ α)} (h : Reads text turn s l)
    (hshorter : ∀ x, l.value = .again x → l.rest.length < s.length) : Turns text turn s :=
  ⟨l.value, .ofLexeme l, false, h false, .nil, hshorter⟩

theorem Turns.of_done {turn : Run (Turn σ α)} {a : α} {r : Reading} {b : Bool}
    (h : Performs text turn false s (.done a) r false) (hsteps : Gains r.steps b) :
    Turns text turn s :=
  ⟨.done a, r, b, h, hsteps, by rintro _ ⟨⟩⟩

theorem Turns.of_again {turn : Run (Turn σ α)} {x : σ} {r : Reading} {b : Bool}
    (h : Performs text turn false s (.again x) r false) (hsteps : Gains r.steps b)
    (hshorter : r.rest.length < s.length) : Turns text turn s :=
  ⟨.again x, r, b, h, hsteps, fun _ _ => hshorter⟩

section Turns

variable (text s)

theorem turns_nameTurn (depth : Nat) (name : Option (List Char)) :
    Turns text (nameTurn depth name) s := by
  apply Turns.of_reads ((reads_nameChar text s Identifier.isPart).map (nameWith name))
  intro x hagain
  apply Pattern.nameChar_rest_lt
  intro habsent
  rw [habsent] at hagain
  cases hagain

theorem turns_classTurn (depth : Nat) (x : Unit) : Turns text (classTurn depth x) s := by
  rcases reads_classTurn text s depth x with ⟨u, ns, -, hdone⟩ | ⟨u, hsuffix, -, hagain⟩
  · exact .of_done (hdone false) .nil
  · have hescape := (Pattern.classEscape_rest u).length_le
    exact .of_again (hagain false) .nil (Nat.lt_of_le_of_lt hescape hsuffix.length_le)

theorem turns_barTurn (h : 2 * s.length + 1 ≤ depth) (x : Unit) :
    Turns text (barTurn depth x) s := by
  cases hbar : ['|'].isPrefixOf s with
  | false =>
      have hdone : Performs text (barTurn depth x) false s (.done ()) (.ofSteps [] s) false := by
        refine (reads_tryConsume_other text hbar false).silently ?_
        exact .pure (Turn.done ()) false s
      exact .of_done hdone .nil
  | true =>
      obtain ⟨u, rfl⟩ := List.isPrefixOf_iff_prefix.mp hbar
      rw [List.singleton_append, List.length_cons] at h
      have hnext := (carried_performs text).alternative u depth (by omega)
      have hagain : Performs text (barTurn depth x) false ('|' :: u) (.again ())
          ((Reading.ofSteps [.bar] u).andThen (Pattern.alternative u)) false := by
        refine (reads_tryConsume_next text u ['|'] false).silently ?_
        refine (performs_level text u .bar false).bind ?_
        exact hnext.lastly (.pure (Turn.again ()) false _)
      exact .of_again hagain (Gains.bar.append (carried_gains.alternative u))
        (Nat.lt_succ_of_le (Pattern.alternative_rest u).length_le)

theorem turns_termTurn (h : 2 * s.length + 1 ≤ depth) (x : Unit) :
    Turns text (termTurn depth x) s := by
  cases hterm : Pattern.term? s with
  | some r =>
      have hread := (carried_performs text).term hterm depth (by omega)
      have hagain : Performs text (termTurn depth x) false s (.again ()) r false :=
        hread.lastly (.pure (Turn.again ()) false _)
      exact .of_again hagain (carried_gains.term hterm) (Pattern.term?_rest hterm).2
  | none =>
      cases hmisplaced : Pattern.misplaced? s with
      | some l =>
          exact .of_again (performs_termTurn_misplaced hmisplaced hterm x) .nil
            (Pattern.misplaced?_rest hmisplaced).2
      | none => exact .of_done (performs_termTurn_stop hmisplaced hterm x) .nil

theorem turns_leftOverTurn (h : 2 * s.length + 1 ≤ depth) (x : Unit) :
    Turns text (leftOverTurn depth x) s := by
  cases s with
  | nil =>
      have hdone :
          Performs text (leftOverTurn depth x) false [] (.done ()) (.ofSteps [] []) false := by
        refine (reads_place text [] false).silently ?_
        exact .pure (Turn.done ()) false []
      exact .of_done hdone .nil
  | cons c u =>
      rw [List.length_cons] at h
      have hread := performs_disjunction text u (show 2 * u.length + 2 ≤ depth by omega)
      have hagain : Performs text (leftOverTurn depth x) false (c :: u) (.again ())
          ((Pattern.strayCloser c u).andThen (Pattern.disjunction u)) false := by
        refine (reads_place text (c :: u) false).silently ?_
        refine (reads_report text (c :: u) .strayCloser false).bind ?_
        refine (reads_skipOne text u c false).silently ?_
        exact hread.lastly (.pure (Turn.again ()) false _)
      exact .of_again hagain (carried_gains.disjunction u)
        (Nat.lt_succ_of_le (Pattern.disjunction_rest u).length_le)

end Turns

section Contents

variable {c c' : Run Unit} {count : Nat}

theorem same_term_of_none (h : Pattern.Opening.of s = .none) :
    SameAt text count false s (term depth c) (term depth c') := by
  have hnone (contents : Run Unit) : Performs text (term depth contents) false s false
      (.ofSteps [] s) false := performs_term_none h
  exact .of_performs (hnone c) (hnone c')

/-- Behind the beginning of a lookaround nothing but the contents depends on the run for them. -/
theorem same_term_of_lookaround (k : Lookaround) {u : List Char}
    (h : SameAt text (count + 1) false u c c') :
    SameAt text count false ('(' :: (k.text ++ u)) (term depth c) (term depth c') := by
  simp only [term, assertion, bind_assoc]
  refine .reading (reads_anchors_lookaround text k u) ?_
  simp only [bind_assoc]
  refine .reading (reads_lookarounds k u) ?_
  simp only [bind_assoc, pure_bind, if_true]
  exact (same_lookaround k.negative h).left _

theorem same_term_of_group {u : List Char} (hu : u.length ≤ depth)
    (ho : Pattern.Opening.of ('(' :: u) = .group u)
    (h : SameAt text (count + 1) false (Pattern.groupOpening u).rest c c') :
    SameAt text count false ('(' :: u) (term depth c) (term depth c') := by
  have hassertion (contents : Run Unit) :
      Reads text (assertion contents) ('(' :: u) ⟨false, '(' :: u, []⟩ :=
    reads_assertion_none (by simp [ho]) (by simp [ho])
  have hatom : SameAt text count false ('(' :: u) (atom depth c) (atom depth c') := by
    rw [atom, atom]
    exact .reading (reads_peek text ('(' :: u)) (same_group hu h)
  rw [term, term]
  refine SameAt.bind (.of_performs (hassertion c false) (hassertion c' false))
    (hassertion c' false) (leadsTo_nil count) ?_
  refine .reading (reads_atAtom text ('(' :: u)) ?_
  exact hatom.left _

/-- A term is the same if its contents are the same from the places behind its beginning. -/
theorem same_term (hs : s.length ≤ depth)
    (h : ∀ u count, u <:+ s → u.length < s.length → SameAt text count false u c c') :
    SameAt text count false s (term depth c) (term depth c') := by
  cases ho : Pattern.Opening.of s with
  | none => exact same_term_of_none ho
  | anchor u =>
      obtain ⟨k, rfl⟩ := Pattern.Opening.eq_of_anchor ho
      have hanchor (contents : Run Unit) : Performs text (term depth contents) false (k.text ++ u)
          true (.ofSteps [] u) false := performs_anchor text k u
      exact .of_performs (hanchor c) (hanchor c')
  | atom l =>
      have hatom (contents : Run Unit) : Performs text (term depth contents) false s true
          ((Reading.ofLexeme l).andThen (Reading.ofLexeme (Pattern.quantifier l.rest))) false :=
        performs_term_plain hs ho
      exact .of_performs (hatom c) (hatom c')
  | lookaround negative u =>
      obtain ⟨hu, hshorter⟩ := Pattern.Opening.of_rest? (congrArg Pattern.Opening.rest? ho)
      obtain ⟨k, rfl, rfl⟩ := Pattern.Opening.eq_of_lookaround ho
      exact same_term_of_lookaround k (h u (count + 1) hu hshorter)
  | group u =>
      obtain ⟨hu, hshorter⟩ := Pattern.Opening.of_rest? (congrArg Pattern.Opening.rest? ho)
      have hopening := Pattern.groupOpening_rest u
      obtain rfl := Pattern.Opening.eq_of_group ho
      exact same_term_of_group (Nat.le_of_succ_le hs) ho
        (h _ (count + 1) (hopening.trans hu) (Nat.lt_of_le_of_lt hopening.length_le hshorter))

end Contents

/-- What is inside a group or lookaround is only read from places farther on, with no group open:
what the run for the contents does from any other state does not matter. -/
theorem term_eq_of_ahead (hm : m.groupOpen = false) (hdepth : m.place.remaining.length ≤ depth)
    {c c' : Run Unit} (h : ∀ m', Ahead m m' → m'.groupOpen = false → c m' = c' m') :
    term depth c m = term depth c' m := by
  have hsame : SameAt m.place.text m.nesting.depth false m.place.remaining (term depth c)
      (term depth c') := by
    apply same_term hdepth
    intro u count hu hshorter _ found n _
    exact h _ (ahead_of_rest rfl hu hshorter) rfl
  have hrun := hsame (List.suffix_append _ _) m.problems m.nesting rfl
  rwa [ofRest_text, ← hm] at hrun

/-- The procedure is a loop of such turns. From the state, the loop comes to its end, and all turns
but the last one lead ahead. -/
structure LoopsAhead (P : Run α) (turn : Nat → σ → Run (Turn σ α)) (depth : Nat) (x : σ)
    (m : State) : Prop where
  eq_loop : P = loop turn depth x
  rounds : ∃ a m', Rounds turn depth x m a m' ∧ Returns P m a m'

/-- All loops that can begin in the state lead ahead, and the contents of what begins there are read
from a place ahead. -/
structure Advances (m : State) (depth : Nat) : Prop where
  nameTail : ∀ name, LoopsAhead (nameTail depth name) nameTurn depth name m
  classMembers : LoopsAhead (classMembers depth) classTurn depth () m
  moreAlternatives : LoopsAhead (moreAlternatives depth) barTurn depth () m
  alternative : LoopsAhead (alternative depth) termTurn depth () m
  leftOver : LoopsAhead (leftOver depth) leftOverTurn depth () m
  /-- It only matters what the run for the contents does from states ahead, with no group open. -/
  contents : ∀ c c' : Run Unit, (∀ m', Ahead m m' → m'.groupOpen = false → c m' = c' m') →
    term depth c m = term depth c' m

theorem loopsAhead {P : Run α} {turn : Nat → σ → Run (Turn σ α)} {x : σ}
    (hloop : P = loop turn depth x)
    (hturn : ∀ text s depth x, 2 * s.length + 1 ≤ depth → Turns text (turn depth x) s)
    (hm : m.groupOpen = false) (hdepth : 2 * m.place.remaining.length + 2 ≤ depth) :
    LoopsAhead P turn depth x m where
  eq_loop := hloop
  rounds := by
    obtain ⟨a, m', hrounds⟩ := exists_rounds hturn x hm hdepth
    exact ⟨a, m', hrounds, hloop ▸ hrounds.returns⟩

theorem advances (hm : m.groupOpen = false) (hdepth : 2 * m.place.remaining.length + 2 ≤ depth) :
    Advances m depth where
  nameTail name := loopsAhead (nameTail_eq_loop depth name)
    (fun text s depth x _ => turns_nameTurn text s depth x) hm hdepth
  classMembers := loopsAhead (classMembers_eq_loop depth)
    (fun text s depth x _ => turns_classTurn text s depth x) hm hdepth
  moreAlternatives := loopsAhead (moreAlternatives_eq_loop depth)
    (fun text s _ x h => turns_barTurn text s h x) hm hdepth
  alternative := loopsAhead (alternative_eq_loop depth)
    (fun text s _ x h => turns_termTurn text s h x) hm hdepth
  leftOver := loopsAhead (leftOver_eq_loop depth)
    (fun text s _ x h => turns_leftOverTurn text s h x) hm hdepth
  contents _ _ h := term_eq_of_ahead hm (by omega) h

/-- From any state in which no group is open, all the loops lead ahead until they are done, and
contents are read only from states ahead, in which the same holds. So the analysis comes to the end
of every pattern, and it finds at most twice as many problems as the pattern has characters. -/
theorem loops_advance :
    (∀ m : State, m.groupOpen = false → ∀ more,
      Advances m (2 * m.place.remaining.length + 2 + more)) ∧
    ∀ (pattern : String) (more : Nat), ∃ m, Returns (do
        disjunction (2 * pattern.length + 2 + more)
        leftOver (2 * pattern.length + 2 + more)) { place := .start pattern.toList } () m ∧
      m.problems = (NamedCaptures.analyze pattern).problems ∧
      m.problems.length ≤ 2 * pattern.length := by
  constructor
  · intro m hm more
    exact advances hm (by omega)
  · intro pattern more
    have hdepth : 2 * pattern.toList.length + 2 ≤ 2 * pattern.length + 2 + more := by
      rw [String.length_toList]
      omega
    obtain ⟨m, hreads⟩ := readsTo pattern hdepth
    refine ⟨m, hreads.read, hreads.problems, ?_⟩
    rw [hreads.problems]
    exact length_problems_le pattern

/-- Two opening braces, with as many problems as two characters can have. -/
theorem loops_advance_at_bar :
    let m : State := ⟨⟨['(', 'a'], ['|', '{', ']', '[', '\\']⟩, [], ⟨{}, [{}]⟩, false⟩
    m.groupOpen = false ∧ LoopsAhead (moreAlternatives 12) barTurn 12 () m ∧
      ∃ m', Returns (do
        disjunction 6
        leftOver 6) { place := .start "\x7b\x7b".toList } () m' ∧
          m'.problems.length = 2 * "\x7b\x7b".length := by
  intro m
  have hlength : (NamedCaptures.analyze "\x7b\x7b").problems.length = 2 * "\x7b\x7b".length := by
    decide +kernel
  obtain ⟨m', hreturns, hproblems, -⟩ := loops_advance.2 "\x7b\x7b" 0
  refine ⟨rfl, (loops_advance.1 m rfl 0).moreAlternatives, m', hreturns, ?_⟩
  rw [hproblems, hlength]

end NamedCaptures.InPlace
