import NamedCaptures.Proofs.InPlace.Readers

/-!
# Counting what is being read

The analysis in place, told how many groups and lookarounds are being read: none at first, and one
more for the contents of each. Before every term, behind every atom, and before and behind all
contents, the number of levels is compared with that count, and the run is cut off if they differ.
They never do: the analysis that counts does just what the analysis does (`same_countedRead`).

A group whose closing parenthesis has been read is being read until its level ends, behind its
quantifier.
-/

namespace NamedCaptures.InPlace

open Run Grammar

/-- Cut off unless the levels are as many as the groups and lookarounds that are being read: those
around the place, and one whose level is still to end. -/
def demand (count : Nat) : Run Unit := do
  let m ← get
  if m.nesting.depth = count + m.groupOpen.toNat then return () else cutOff

/-- Reads a term, if one begins here, in so many groups and lookarounds. -/
def countedTerm (depth count : Nat) (contents : Run Unit) : Run Bool := do
  if ← assertion contents then return true
  else if ← atAtom then
    atom depth contents
    demand count
    endGroup (← quantifier)
    return true
  else return false

mutual

/-- Reads alternatives with bars between them, in so many groups and lookarounds. -/
def countedDisjunction : Nat → Nat → Run Unit
  | 0, _ => cutOff
  | depth + 1, count => do
      countedAlternative depth count
      countedAlternatives depth count

/-- Reads the alternatives behind the first one. -/
def countedAlternatives : Nat → Nat → Run Unit
  | 0, _ => cutOff
  | depth + 1, count => do
      demand count
      if ← tryConsume ['|'] then
        level .bar
        countedAlternative depth count
        countedAlternatives depth count
      else return ()

/-- Reads terms, and skips what is misplaced among them. The contents of each count one more. -/
def countedAlternative : Nat → Nat → Run Unit
  | 0, _ => cutOff
  | depth + 1, count => do
      demand count
      if ← countedTerm depth count (countedDisjunction depth (count + 1)) then
        countedAlternative depth count
      else if ← nextSatisfies fun c => c == ']' || c == '}' then
        report .strayCloser
        skipOne
        countedAlternative depth count
      else if ← nextSatisfies Pattern.isQuantifierStart then
        report .nothingToRepeat
        let _ ← quantifier
        countedAlternative depth count
      else return ()

end

/-- Reads on behind every closing parenthesis that is left over. -/
def countedLeftOver : Nat → Run Unit
  | 0 => cutOff
  | depth + 1 => do
      demand 0
      if (← place).atEnd then return ()
      else
        report .strayCloser
        skipOne
        countedDisjunction depth 0
        countedLeftOver depth

section Same

variable {α β : Type} {text s : List Char} {count depth : Nat} {e e' : Bool}

/-- From the place before `s`, with so many levels, the runs are the same. -/
def SameAt (text : List Char) (count : Nat) (e : Bool) (s : List Char) (P Q : Run α) : Prop :=
  s <:+ text → ∀ found n, n.depth = count →
    P ⟨.ofRest text s, found, n, e⟩ = Q ⟨.ofRest text s, found, n, e⟩

/-- Taken with so many levels, the steps are no fault and lead to so many others. -/
def LeadsTo (steps : List Nesting.Step) (count count' : Nat) : Prop :=
  ∀ n : Nesting, n.depth = count → ∃ m, levels n steps = .ok m ∧ m.depth = count'

theorem leadsTo_nil (count : Nat) : LeadsTo [] count count :=
  fun n h => ⟨n, rfl, h⟩

theorem leadsTo_descend (count : Nat) : LeadsTo [.descend] count (count + 1) :=
  fun n h => ⟨n.descend, rfl, congrArg Nat.succ h⟩

theorem leadsTo_name (name : Option String) (count : Nat) :
    LeadsTo (name.toList.map .name) count count := by
  cases name with
  | none => exact leadsTo_nil count
  | some name => exact fun n h => ⟨n.name name, rfl, h⟩

theorem Gains.leadsTo {steps : List Nesting.Step} {b : Bool} (h : Gains steps b) (count : Nat) :
    LeadsTo steps count count := by
  obtain ⟨m, hm⟩ := h
  exact fun n hn => ⟨gain n m b, hm n, hn⟩

/-- A group up to its closing parenthesis is still a level. -/
theorem leadsTo_group (u : List Char) (count : Nat) :
    LeadsTo (Pattern.group u).steps count (count + 1) := by
  obtain ⟨own, -, hlevels⟩ := levels_group u
  exact fun n h => ⟨_, hlevels n, congrArg Nat.succ h⟩

namespace SameAt

variable {P Q R : Run α} {f g : α → Run β} {a : α} {r : Reading} {count' : Nat}

theorem refl (P : Run α) : SameAt text count e s P P :=
  fun _ _ _ _ => rfl

theorem trans (h : SameAt text count e s P Q) (h' : SameAt text count e s Q R) :
    SameAt text count e s P R :=
  fun hs found n hn => (h hs found n hn).trans (h' hs found n hn)

theorem of_performs (h : Performs text P e s a r e') (h' : Performs text Q e s a r e') :
    SameAt text count e s P Q :=
  fun hs found n _ => (h.run hs found n).trans (h'.run hs found n).symm

theorem left (h : SameAt text count e s P Q) (f : α → Run β) :
    SameAt text count e s (P >>= f) (Q >>= f) := by
  intro hs found n hn
  have hbind (P : Run α) (m : State) : (P >>= f) m = P m >>= fun x => f x.1 x.2 := rfl
  rw [hbind, hbind, h hs found n hn]

/-- Behind a run, from the levels to which it leads. -/
theorem behind (h : Performs text P e s a r e') (hsteps : LeadsTo r.steps count count')
    (hfg : SameAt text count' e' r.rest (f a) (g a)) :
    SameAt text count e s (P >>= f) (P >>= g) := by
  intro hs found n hn
  obtain ⟨m, hm, hdepth⟩ := hsteps n hn
  have hbind (f : α → Run β) : (P >>= f) ⟨.ofRest text s, found, n, e⟩ =
      f a ⟨.ofRest text r.rest, found ++ r.notices.map (·.locate text), m, e'⟩ := by
    have hrun : (P >>= f) ⟨.ofRest text s, found, n, e⟩ =
        P ⟨.ofRest text s, found, n, e⟩ >>= fun x => f x.1 x.2 := rfl
    rw [hrun, h.run hs found n, hm]
    rfl
  rw [hbind, hbind]
  exact hfg (h.suffix.trans hs) _ m hdepth

theorem bind (h : SameAt text count e s P Q) (hQ : Performs text Q e s a r e')
    (hsteps : LeadsTo r.steps count count') (hfg : SameAt text count' e' r.rest (f a) (g a)) :
    SameAt text count e s (P >>= f) (Q >>= g) :=
  (h.left f).trans (.behind hQ hsteps hfg)

/-- Behind a run that takes no steps. -/
theorem reading {l : Lexeme α} (h : Reads text P s l)
    (hfg : SameAt text count e l.rest (f l.value) (g l.value)) :
    SameAt text count e s (P >>= f) (P >>= g) :=
  .behind (h e) (leadsTo_nil count) hfg

/-- Where the levels are as many as demanded, demanding it changes nothing. -/
theorem demand (h : SameAt text (count + e.toNat) e s P Q) :
    SameAt text (count + e.toNat) e s (do
      demand count
      P) Q := by
  intro hs found n hn
  refine Eq.trans ?_ (h hs found n hn)
  have hdemand (m : State) (hm : m.nesting.depth = count + m.groupOpen.toNat) :
      InPlace.demand count m = ends (.ok ((), m)) := by
    have hrun : InPlace.demand count m = (if m.nesting.depth = count + m.groupOpen.toNat then
        Pure.pure () else cutOff : Run Unit) m := rfl
    rw [hrun, if_pos hm]
    rfl
  have hbind (m : State) : (do
      InPlace.demand count
      P) m = InPlace.demand count m >>= fun x => P x.2 := rfl
  rw [hbind, hdemand _ hn]
  rfl

end SameAt

variable {c c' : Run Unit} {u : List Char}

theorem same_lookaround (negative : Bool) (h : SameAt text (count + 1) false u c c') :
    SameAt text count false u (lookaround negative c) (lookaround negative c') := by
  rw [lookaround, lookaround]
  refine .behind (performs_level text u .descend false) (leadsTo_descend count) ?_
  exact h.left _

theorem same_group (hu : u.length ≤ depth)
    (h : SameAt text (count + 1) false (Pattern.groupOpening u).rest c c') :
    SameAt text count false ('(' :: u) (group depth c) (group depth c') := by
  rw [group, group]
  refine .behind (performs_groupOpen text ('(' :: u) false) (leadsTo_nil count) ?_
  refine .reading (reads_skipExact text u ['(']) ?_
  refine .behind (performs_level text u .descend false) (leadsTo_descend count) ?_
  refine .behind (performs_groupOpening hu) (leadsTo_name _ (count + 1)) ?_
  exact h.left _

theorem same_assertion_lookaround (k : Lookaround) (h : SameAt text (count + 1) false u c c') :
    SameAt text count false ('(' :: (k.text ++ u)) (assertion c) (assertion c') := by
  rw [assertion, assertion]
  refine .reading (reads_anchors_lookaround text k u) ?_
  refine .reading (reads_lookarounds k u) ?_
  exact (same_lookaround k.negative h).left _

/-- Where an assertion is read, the term is read. -/
theorem same_term_assertion {r : Reading}
    (h : SameAt text count false s (assertion c) (assertion c'))
    (hread : Performs text (assertion c') false s true r false)
    (hsteps : LeadsTo r.steps count count) :
    SameAt text count false s (countedTerm depth count c) (term depth c') := by
  rw [countedTerm, term]
  exact h.bind hread hsteps (.refl _)

/-- Where none is read, an atom may be. The count is right behind it, where its level may still be
to end. -/
theorem same_term_atom {r : Reading} {e : Bool}
    (hassertion : ∀ contents, Reads text (assertion contents) s ⟨false, s, []⟩)
    (hat : Reads text atAtom s ⟨true, s, []⟩)
    (h : SameAt text count false s (atom depth c) (atom depth c'))
    (hread : Performs text (atom depth c') false s () r e)
    (hsteps : LeadsTo r.steps count (count + e.toNat)) :
    SameAt text count false s (countedTerm depth count c) (term depth c') := by
  rw [countedTerm, term]
  refine SameAt.bind (.of_performs (hassertion c false) (hassertion c' false))
    (hassertion c' false) (leadsTo_nil count) ?_
  refine .reading hat ?_
  refine h.bind hread hsteps ?_
  exact .demand (.refl _)

theorem same_term_none (h : Pattern.Opening.of s = .none) :
    SameAt text count false s (countedTerm depth count c) (term depth c') := by
  have hassertion (contents : Run Unit) : Reads text (assertion contents) s ⟨false, s, []⟩ :=
    reads_assertion_none (by simp [h]) (by simp [h])
  rw [countedTerm, term]
  refine SameAt.bind (.of_performs (hassertion c false) (hassertion c' false))
    (hassertion c' false) (leadsTo_nil count) ?_
  refine .reading (reads_atAtom_none text h) ?_
  exact .refl _

/-- What is misplaced is skipped. -/
theorem same_misplaced {l : Lexeme Unit} (h : Pattern.misplaced? s = some l)
    (hterm : Pattern.term? s = none)
    (ha : SameAt text count false l.rest (countedAlternative depth count) (alternative depth)) :
    SameAt text count false s (countedAlternative (depth + 1) count)
      (alternative (depth + 1)) := by
  have hnone := Pattern.term?_eq_none_iff.mp hterm
  rw [countedAlternative, alternative]
  refine SameAt.demand (e := false) ?_
  refine (same_term_none hnone).bind (performs_term_none hnone) (leadsTo_nil count) ?_
  unfold Pattern.misplaced? at h
  split at h
  · cases h
  · next d u =>
      refine .reading (reads_nextSatisfies text (d :: u) _) ?_
      rw [List.head?_cons, Option.any_some, closes_eq]
      split at h
      · next hd =>
          cases h
          rw [decide_eq_true hd]
          refine .reading (reads_report text (d :: u) .strayCloser) ?_
          exact .reading (reads_skipOne text u d) ha
      · next hd =>
          rw [decide_eq_false hd]
          refine .reading (reads_nextSatisfies text (d :: u) _) ?_
          rw [List.head?_cons, Option.any_some]
          split at h
          · next hq =>
              cases h
              rw [hq]
              refine .reading (reads_report text (d :: u) .nothingToRepeat) ?_
              exact .reading (reads_quantifier text (d :: u)) ha
          · cases h

theorem same_alternative_stop (h : Pattern.misplaced? s = none) (hterm : Pattern.term? s = none) :
    SameAt text count false s (countedAlternative (depth + 1) count)
      (alternative (depth + 1)) := by
  have hnone := Pattern.term?_eq_none_iff.mp hterm
  rw [countedAlternative, alternative]
  refine SameAt.demand (e := false) ?_
  refine (same_term_none hnone).bind (performs_term_none hnone) (leadsTo_nil count) ?_
  refine .reading (reads_nextSatisfies text s _) ?_
  rcases Pattern.eq_of_stop hterm h with rfl | ⟨d, u, rfl, rfl | rfl⟩
  · exact .reading (reads_nextSatisfies text [] _) (.refl _)
  · exact .reading (reads_nextSatisfies text (')' :: u) _) (.refl _)
  · exact .reading (reads_nextSatisfies text ('|' :: u) _) (.refl _)

/-- With the count right at the beginning, the procedures that count do what the others do. -/
theorem carried_same (text : List Char) :
    Pattern.Carried
      (fun s _ => ∀ depth count, 2 * s.length + 2 ≤ depth →
        SameAt text count false s (countedDisjunction depth count) (disjunction depth))
      (fun s _ => ∀ depth count, 2 * s.length + 1 ≤ depth →
        SameAt text count false s (countedAlternative depth count) (alternative depth))
      (fun s _ => ∀ depth count, 2 * s.length ≤ depth →
        SameAt text count false s (countedTerm depth count (countedDisjunction depth (count + 1)))
          (term depth (disjunction depth))) where
  bar s u ha hrest hd depth count h := by
    have hshorter : u.length < s.length := by
      have hsuffix : '|' :: u <:+ s := hrest ▸ Pattern.alternative_rest s
      exact hsuffix.length_le
    obtain ⟨depth, rfl⟩ : ∃ k, depth = k + 2 := ⟨depth - 2, by omega⟩
    have hothers := hd (depth + 1) count (by omega)
    have hfirst := (carried_performs text).alternative s (depth + 1) (by omega)
    have hlevels := (carried_gains.alternative s).leadsTo count
    rw [countedDisjunction, disjunction] at hothers ⊢
    refine (ha (depth + 1) count (by omega)).bind hfirst hlevels ?_
    rw [hrest, countedAlternatives, moreAlternatives]
    refine SameAt.demand (e := false) ?_
    refine .reading (reads_tryConsume_next text u ['|']) ?_
    exact .behind (performs_level text u .bar false) (Gains.bar.leadsTo count) hothers
  last s ha hrest depth count h := by
    obtain ⟨depth, rfl⟩ : ∃ k, depth = k + 2 := ⟨depth - 2, by omega⟩
    have hfirst := (carried_performs text).alternative s (depth + 1) (by omega)
    have hlevels := (carried_gains.alternative s).leadsTo count
    rw [countedDisjunction, disjunction]
    refine (ha (depth + 1) count (by omega)).bind hfirst hlevels ?_
    rw [countedAlternatives, moreAlternatives]
    refine SameAt.demand (e := false) ?_
    exact .reading (reads_tryConsume_other text (isPrefixOf_bar hrest)) (.refl _)
  more s r hterm ht ha depth count h := by
    have hshorter := (Pattern.term?_rest hterm).2
    obtain ⟨depth, rfl⟩ : ∃ k, depth = k + 1 := ⟨depth - 1, by omega⟩
    have hfirst := (carried_performs text).term hterm depth (by omega)
    have hlevels := (carried_gains.term hterm).leadsTo count
    rw [countedAlternative, alternative]
    refine SameAt.demand (e := false) ?_
    refine (ht depth count (by omega)).bind hfirst hlevels ?_
    exact ha depth count (by omega)
  misplaced s l hterm hmisplaced ha depth count h := by
    have hshorter := (Pattern.misplaced?_rest hmisplaced).2
    obtain ⟨depth, rfl⟩ : ∃ k, depth = k + 1 := ⟨depth - 1, by omega⟩
    exact same_misplaced hmisplaced hterm (ha depth count (by omega))
  stop s hterm hmisplaced depth count h := by
    obtain ⟨depth, rfl⟩ : ∃ k, depth = k + 1 := ⟨depth - 1, by omega⟩
    exact same_alternative_stop hmisplaced hterm
  anchor s u ho depth count _ := by
    obtain ⟨k, rfl⟩ := Pattern.Opening.eq_of_anchor ho
    have hanchor (contents : Run Unit) : Performs text (assertion contents) false (k.text ++ u) true
        (.ofSteps [] u) false := reads_assertion_anchor text k u false
    exact same_term_assertion (.of_performs (hanchor _) (hanchor _)) (hanchor _) (leadsTo_nil count)
  atom s l ho depth count h := by
    have hassertion (contents : Run Unit) : Reads text (assertion contents) s ⟨false, s, []⟩ :=
      reads_assertion_none (by simp [ho]) (by simp [ho])
    have hatom (contents : Run Unit) : Reads text atAtom s ⟨true, s, []⟩ ∧
        Performs text (atom depth contents) false s () (.ofLexeme l) false :=
      reads_atom text (by omega) ho
    exact same_term_atom hassertion (hatom (disjunction depth)).1
      (.of_performs (hatom _).2 (hatom _).2) (hatom _).2 (leadsTo_nil count)
  lookaround s negative u ho hd depth count h := by
    have hshorter := (Pattern.Opening.of_rest? (congrArg Pattern.Opening.rest? ho)).2
    have hcontents := (carried_performs text).disjunction u depth (by omega)
    have hlevels := ((carried_gains.disjunction u).lookaround negative).leadsTo count
    obtain ⟨k, rfl, rfl⟩ := Pattern.Opening.eq_of_lookaround ho
    exact same_term_assertion
      (same_assertion_lookaround k (hd depth (count + 1) (by omega)))
      (performs_assertion_lookaround k hcontents) hlevels
  group s u ho hd depth count h := by
    have hshorter := (Pattern.Opening.of_rest? (congrArg Pattern.Opening.rest? ho)).2
    have hopening := (Pattern.groupOpening_rest u).length_le
    have hu : u.length ≤ depth := by omega
    have hcontents := (carried_performs text).disjunction (Pattern.groupOpening u).rest depth
      (by omega)
    obtain rfl := Pattern.Opening.eq_of_group ho
    have hassertion (contents : Run Unit) :
        Reads text (assertion contents) ('(' :: u) ⟨false, '(' :: u, []⟩ :=
      reads_assertion_none (by simp [ho]) (by simp [ho])
    have hsame := same_group hu (hd depth (count + 1) (by omega))
    refine same_term_atom hassertion (reads_atAtom text ('(' :: u)) ?_
      (performs_atom_group hu hcontents) (leadsTo_group u count)
    rw [atom, atom]
    exact .reading (reads_peek text ('(' :: u)) hsame

/-- Reads a whole pattern, and counts. -/
def countedRead (depth : Nat) : Run Unit := do
  countedDisjunction depth 0
  countedLeftOver depth

theorem same_countedRead (text s : List Char) (h : 2 * s.length + 2 ≤ depth) :
    SameAt text 0 false s (countedRead depth) (do
      disjunction depth
      leftOver depth) := by
  induction depth generalizing s with
  | zero => exact absurd h (Nat.not_succ_le_zero _)
  | succ depth ih =>
      have hsame := (carried_same text).disjunction s (depth + 1) 0 h
      have hread := performs_disjunction text s h
      have hlevels := (carried_gains.disjunction s).leadsTo 0
      rw [countedRead]
      refine hsame.bind hread hlevels ?_
      rw [countedLeftOver, leftOver]
      refine SameAt.demand (e := false) ?_
      cases hrest : (Pattern.disjunction s).rest with
      | nil => exact .reading (reads_place text []) (.refl _)
      | cons c u =>
          have hsuffix : c :: u <:+ s := hrest ▸ Pattern.disjunction_rest s
          have hshorter := hsuffix.length_le
          rw [List.length_cons] at hshorter
          refine .reading (reads_place text (c :: u)) ?_
          refine .reading (reads_report text (c :: u) .strayCloser) ?_
          exact .reading (reads_skipOne text u c) (ih u (by omega))

end Same

end NamedCaptures.InPlace
