import NamedCaptures.Proofs.Grammar.TreeReading
import NamedCaptures.Proofs.InPlace.Levels
import NamedCaptures.Proofs.InPlace.Tokens
import NamedCaptures.Proofs.Readers.Stopping

/-!
# The analysis in place is safe

The procedures for patterns perform in place what the readers of patterns return, and the steps of
nesting of a reading are never misused. So the analysis in place ends for every text, without any
fault, and with the outcome of the analysis (`analyze_eq_ok`).

Calls nest twice as deep as the text is long, and not much deeper: a procedure for alternatives
calls itself or a procedure for disjunctions only behind a character that has been read.
-/

namespace NamedCaptures.InPlace

open Run Grammar

section Patterns

variable {text s : List Char} {depth : Nat} {contents : Run Unit}

theorem find_anchors (k : Anchor) (u : List Char) :
    anchors.find? (fun entry => entry.1.isPrefixOf (k.text ++ u)) = some (k.text, ()) := by
  cases k <;> rfl

theorem find_lookarounds (k : Lookaround) (u : List Char) :
    lookarounds.find? (fun entry => entry.1.isPrefixOf ('(' :: (k.text ++ u))) =
      some ('(' :: k.text, k.negative) := by
  cases k <;> rfl

theorem find_anchors_eq_none (h : ∀ u, Pattern.Opening.of s ≠ .anchor u) :
    anchors.find? (fun entry => entry.1.isPrefixOf s) = none := by
  apply List.find?_eq_none.mpr
  intro entry hentry hprefix
  obtain ⟨u, rfl⟩ := List.isPrefixOf_iff_prefix.mp hprefix
  have hanchor : ∃ k : Anchor, entry.1 = k.text := by
    simp only [anchors, List.mem_cons, List.not_mem_nil, or_false] at hentry
    rcases hentry with rfl | rfl | rfl | rfl
    · exact ⟨.start, rfl⟩
    · exact ⟨.finish, rfl⟩
    · exact ⟨.boundary, rfl⟩
    · exact ⟨.noBoundary, rfl⟩
  obtain ⟨k, hk⟩ := hanchor
  exact h u (by rw [hk, Pattern.opening_of_anchor])

theorem find_lookarounds_eq_none
    (h : ∀ negative u, Pattern.Opening.of s ≠ .lookaround negative u) :
    lookarounds.find? (fun entry => entry.1.isPrefixOf s) = none := by
  apply List.find?_eq_none.mpr
  intro entry hentry hprefix
  obtain ⟨u, rfl⟩ := List.isPrefixOf_iff_prefix.mp hprefix
  have hlookaround : ∃ k : Lookaround, entry.1 = '(' :: k.text := by
    simp only [lookarounds, List.mem_cons, List.not_mem_nil, or_false] at hentry
    rcases hentry with rfl | rfl | rfl | rfl
    · exact ⟨.ahead, rfl⟩
    · exact ⟨.notAhead, rfl⟩
    · exact ⟨.behind, rfl⟩
    · exact ⟨.notBehind, rfl⟩
  obtain ⟨k, hk⟩ := hlookaround
  refine h k.negative u ?_
  rw [hk]
  exact opening_of_lookaround k u

theorem reads_anchors_other (h : ∀ u, Pattern.Opening.of s ≠ .anchor u) :
    Reads text (tryConsumeAny anchors) s ⟨none, s, []⟩ := by
  have hany := reads_tryConsumeAny text s anchors
  rwa [find_anchors_eq_none h] at hany

/-- Where neither an anchor nor a lookaround begins, there is no assertion. -/
theorem reads_assertion_none (h : ∀ u, Pattern.Opening.of s ≠ .anchor u)
    (h' : ∀ negative u, Pattern.Opening.of s ≠ .lookaround negative u) :
    Reads text (assertion contents) s ⟨false, s, []⟩ := by
  have hany := reads_tryConsumeAny text s lookarounds
  rw [find_lookarounds_eq_none h'] at hany
  rw [assertion]
  refine (reads_anchors_other h).silently ?_
  refine hany.silently ?_
  exact .pure false s

theorem reads_atAtom (text s : List Char) :
    Reads text atAtom s
      ⟨s.head?.any fun c => ['\\', '.', '[', '('].contains c || !Pattern.isSyntaxChar c,
        s, []⟩ := by
  refine (reads_peek text s).silently ?_
  cases s with
  | nil => exact .pure false []
  | cons c s => exact .pure _ (c :: s)

theorem reads_assertion_anchor (text : List Char) (k : Anchor) (u : List Char) :
    Reads text (assertion contents) (k.text ++ u) ⟨true, u, []⟩ := by
  have hany := reads_tryConsumeAny text (k.text ++ u) anchors
  simp only [find_anchors, List.drop_left] at hany
  rw [assertion]
  refine hany.silently ?_
  exact .pure true u

/-- An anchor is a term. -/
theorem performs_anchor (text : List Char) (k : Anchor) (u : List Char) :
    Performs text (term depth contents) false (k.text ++ u) true (.ofSteps [] u) false := by
  rw [term]
  refine (reads_assertion_anchor text k u false).silently ?_
  exact .pure true false u

theorem reads_atAtom_none (text : List Char) (h : Pattern.Opening.of s = .none) :
    Reads text atAtom s ⟨false, s, []⟩ := by
  have hatom := reads_atAtom text s
  have hnone : (s.head?.any fun c => ['\\', '.', '[', '('].contains c ||
      !Pattern.isSyntaxChar c) = false := by
    rcases Pattern.Opening.eq_of_none h with rfl | ⟨c, u, rfl, hc⟩
    · rfl
    · simp only [List.mem_cons, List.not_mem_nil, or_false] at hc
      rcases hc with rfl | rfl | rfl | rfl | rfl | rfl | rfl | rfl <;> rfl
  rwa [hnone] at hatom

/-- Where no term begins, none is read. -/
theorem performs_term_none (h : Pattern.Opening.of s = .none) :
    Performs text (term depth contents) false s false (.ofSteps [] s) false := by
  have hassertion : Reads text (assertion contents) s ⟨false, s, []⟩ :=
    reads_assertion_none (by simp [h]) (by simp [h])
  rw [term]
  refine (hassertion false).silently ?_
  refine (reads_atAtom_none text h false).silently ?_
  exact .pure false false s

theorem performs_closing (text s : List Char) (e : Bool) :
    Performs text (expect [')'] .unclosedGroup) e s
      (Lexeme.expect ')' .unclosedGroup s).value (Pattern.closingParenthesis s) e :=
  reads_expect text s ')' .unclosedGroup e

/-- The steps of a lookaround, in the order in which they are taken in place: its level is settled
before its closing parenthesis is read. -/
theorem lookaround_eq_settled (negative : Bool) (u : List Char) :
    Pattern.lookaround negative u =
      let contents := Pattern.disjunction u
      let closing := Pattern.closingParenthesis contents.rest
      let ending := closing.andThen (Reading.ofSteps [.ascend] closing.rest)
      (Reading.ofSteps [.descend] u).andThen (contents.andThen
        ((Reading.ofSteps [.settle] contents.rest).andThen
          (if negative then (Reading.ofSteps [.loosen] contents.rest).andThen ending
            else ending))) := by
  rw [Pattern.lookaround_eq]
  cases negative <;>
    simp [Reading.andThen, Reading.ofSteps, Pattern.lookaroundSteps, Pattern.closingParenthesis]

theorem performs_lookaround (negative : Bool) {u : List Char}
    (h : Performs text contents false u () (Pattern.disjunction u) false) :
    Performs text (lookaround negative contents) false u () (Pattern.lookaround negative u)
      false := by
  have hclosing := performs_closing text (Pattern.disjunction u).rest false
  have hascend := performs_level text
    (Pattern.closingParenthesis (Pattern.disjunction u).rest).rest .ascend false
  rw [lookaround, lookaround_eq_settled]
  refine (performs_level text u .descend false).bind ?_
  refine h.bind ?_
  refine (performs_level text _ .settle false).bind ?_
  cases negative with
  | true =>
      refine (performs_level text _ .loosen false).bind ?_
      exact hclosing.bind hascend
  | false => exact hclosing.bind hascend

theorem reads_lookarounds (k : Lookaround) (u : List Char) :
    Reads text (tryConsumeAny lookarounds) ('(' :: (k.text ++ u)) ⟨some k.negative, u, []⟩ := by
  have hany := reads_tryConsumeAny text ('(' :: (k.text ++ u)) lookarounds
  have hdrop : ('(' :: (k.text ++ u)).drop ('(' :: k.text).length = u := by
    rw [← List.cons_append]
    exact List.drop_left
  simp only [find_lookarounds, hdrop] at hany
  exact hany

theorem reads_anchors_lookaround (text : List Char) (k : Lookaround) (u : List Char) :
    Reads text (tryConsumeAny anchors) ('(' :: (k.text ++ u)) ⟨none, '(' :: (k.text ++ u), []⟩ := by
  refine reads_anchors_other fun v => ?_
  rw [opening_of_lookaround]
  rintro ⟨⟩

theorem performs_assertion_lookaround (k : Lookaround) {u : List Char}
    (h : Performs text contents false u () (Pattern.disjunction u) false) :
    Performs text (assertion contents) false ('(' :: (k.text ++ u)) true
      (Pattern.lookaround k.negative u) false := by
  rw [assertion]
  refine (reads_anchors_lookaround text k u false).silently ?_
  refine (reads_lookarounds k u false).silently ?_
  exact (performs_lookaround k.negative h).lastly (.pure true false _)

/-- A lookaround is a term, if its contents are read. -/
theorem performs_term_lookaround (k : Lookaround) {u : List Char}
    (h : Performs text contents false u () (Pattern.disjunction u) false) :
    Performs text (term depth contents) false ('(' :: (k.text ++ u)) true
      (Pattern.lookaround k.negative u) false := by
  rw [term]
  exact (performs_assertion_lookaround k h).lastly (.pure true false _)

/-- The steps where a group begins are taken in two parts, before and behind its name. -/
theorem openingSteps_eq (name : Option String) :
    Pattern.openingSteps name = .descend :: (name.toList.map .name) := by
  cases name <;> rfl

theorem groupOpening_of_mark {u : List Char} (h : [':'].isPrefixOf u = false) :
    Pattern.groupOpening ('?' :: u) = Pattern.groupName u := by
  unfold Pattern.groupOpening
  split
  · next heq =>
      cases heq
      cases h
  · next heq =>
      cases heq
      rfl
  · next hmark => exact absurd rfl (hmark u)

theorem groupOpening_of_other (h : ['?'].isPrefixOf s = false) :
    Pattern.groupOpening s = ⟨none, s, []⟩ := by
  unfold Pattern.groupOpening
  split
  · cases h
  · cases h
  · rfl

/-- What a group begins with, on its own level. -/
theorem performs_groupOpening (h : s.length ≤ depth) :
    Performs text (groupOpening depth) false s ()
      ((Reading.ofLexeme (Pattern.groupOpening s)).andThen
        (Reading.ofSteps ((Pattern.groupOpening s).value.toList.map .name)
          (Pattern.groupOpening s).rest)) false := by
  cases hplain : ['?', ':'].isPrefixOf s with
  | true =>
      obtain ⟨u, rfl⟩ := List.isPrefixOf_iff_prefix.mp hplain
      refine (reads_tryConsume_next text u ['?', ':'] false).silently ?_
      exact .pure () false u
  | false =>
      refine (reads_tryConsume_other text hplain false).silently ?_
      cases hmark : ['?'].isPrefixOf s with
      | false =>
          rw [groupOpening_of_other hmark]
          refine (reads_tryConsume_other text hmark false).silently ?_
          exact .pure () false s
      | true =>
          obtain ⟨u, rfl⟩ := List.isPrefixOf_iff_prefix.mp hmark
          have hcolon : [':'].isPrefixOf u = false := hplain
          rw [List.singleton_append, groupOpening_of_mark hcolon]
          refine (reads_tryConsume_next text u ['?'] false).silently ?_
          refine (reads_groupName text u (Nat.le_of_succ_le h) false).bind ?_
          cases (Pattern.groupName u).value with
          | none => exact .pure () false _
          | some name => exact performs_level text _ (.name name) false

/-- The reading of a group, in the order in which its steps are taken in place. -/
theorem group_eq_settled (u : List Char) :
    Pattern.group u =
      let opening := Pattern.groupOpening u
      let contents := Pattern.disjunction opening.rest
      let closing := Pattern.closingParenthesis contents.rest
      (Reading.ofSteps [.descend] u).andThen (((Reading.ofLexeme opening).andThen
        (Reading.ofSteps (opening.value.toList.map .name) opening.rest)).andThen
          (contents.andThen ((Reading.ofSteps [.settle] contents.rest).andThen closing))) := by
  rw [Pattern.group_eq]
  simp [Reading.andThen, Reading.ofSteps, openingSteps_eq, Pattern.closingParenthesis]

/-- A group, up to its closing parenthesis, if its contents are read. Its level is still to end. -/
theorem performs_group {u : List Char} (hu : u.length ≤ depth)
    (h : Performs text contents false (Pattern.groupOpening u).rest ()
      (Pattern.disjunction (Pattern.groupOpening u).rest) false) :
    Performs text (group depth contents) false ('(' :: u) () (Pattern.group u) true := by
  rw [group, group_eq_settled]
  refine (performs_groupOpen text ('(' :: u) false).silently ?_
  refine (reads_skipExact text u ['('] false).silently ?_
  refine (performs_level text u .descend false).bind ?_
  refine (performs_groupOpening hu).bind ?_
  refine h.bind ?_
  refine (performs_level text _ .settle false).bind ?_
  refine (performs_closing text _ false).lastly ?_
  exact performs_setGroupOpen text _ false true

theorem performs_endGroup (text s : List Char) (q : Option Pattern.Quantifier) :
    Performs text (endGroup q) true s () (.ofSteps (Pattern.quantifiedSteps q) s) false := by
  rw [quantifiedSteps_eq_lookaroundSteps]
  refine (performs_groupOpen text s true).silently ?_
  refine (performs_setGroupOpen text s true false).silently ?_
  cases q.any (·.allowsNone) with
  | true =>
      have hsteps : Reading.ofSteps (Pattern.lookaroundSteps true) s =
        (Reading.ofSteps [.loosen] s).andThen (Reading.ofSteps [.ascend] s) := rfl
      rw [hsteps]
      refine (performs_level text s .loosen false).bind ?_
      exact performs_level text s .ascend false
  | false => exact performs_level text s .ascend false

theorem performs_endGroup_none (text s : List Char) (q : Option Pattern.Quantifier) :
    Performs text (endGroup q) false s () (.ofSteps [] s) false := by
  refine (performs_groupOpen text s false).silently ?_
  exact .pure () false s

/-- An atom is a term, together with the quantifier behind it and the end of its level. -/
theorem performs_term_atom (steps : Option Pattern.Quantifier → List Nesting.Step) {r : Reading}
    {e : Bool}
    (hassertion : Reads text (assertion contents) s ⟨false, s, []⟩)
    (hat : Reads text atAtom s ⟨true, s, []⟩)
    (hatom : Performs text (atom depth contents) false s () r e)
    (hend : ∀ q u, Performs text (endGroup q) e u () (.ofSteps (steps q) u) false) :
    Performs text (term depth contents) false s true
      (r.andThen ((Reading.ofLexeme (Pattern.quantifier r.rest)).andThen
        (Reading.ofSteps (steps (Pattern.quantifier r.rest).value)
          (Pattern.quantifier r.rest).rest))) false := by
  rw [term]
  refine (hassertion false).silently ?_
  refine (hat false).silently ?_
  refine hatom.bind ?_
  refine (reads_quantifier text r.rest e).bind ?_
  exact (hend _ _).lastly (.pure true false _)

theorem performs_atom_group {u : List Char} (hu : u.length ≤ depth)
    (h : Performs text contents false (Pattern.groupOpening u).rest ()
      (Pattern.disjunction (Pattern.groupOpening u).rest) false) :
    Performs text (atom depth contents) false ('(' :: u) () (Pattern.group u) true := by
  rw [atom]
  refine (reads_peek text ('(' :: u) false).silently ?_
  exact performs_group hu h

theorem performs_term_group {u : List Char} (hu : u.length ≤ depth)
    (ho : Pattern.Opening.of ('(' :: u) = .group u)
    (h : Performs text contents false (Pattern.groupOpening u).rest ()
      (Pattern.disjunction (Pattern.groupOpening u).rest) false) :
    Performs text (term depth contents) false ('(' :: u) true
      (let repeated := Pattern.quantifier (Pattern.group u).rest
      (Pattern.group u).andThen ((Reading.ofLexeme repeated).andThen
        (Reading.ofSteps (Pattern.quantifiedSteps repeated.value) repeated.rest))) false := by
  have hassertion : Reads text (assertion contents) ('(' :: u) ⟨false, '(' :: u, []⟩ :=
    reads_assertion_none (by simp [ho]) (by simp [ho])
  exact performs_term_atom Pattern.quantifiedSteps hassertion (reads_atAtom text ('(' :: u))
    (performs_atom_group hu h) fun q v => performs_endGroup text v q

/-- An atom that is no group. -/
theorem reads_atom (text : List Char) {l : Lexeme Unit} (hs : s.length ≤ depth)
    (h : Pattern.Opening.of s = .atom l) :
    Reads text atAtom s ⟨true, s, []⟩ ∧
      Performs text (atom depth contents) false s () (.ofLexeme l) false := by
  have hat := reads_atAtom text s
  rw [atom]
  rcases Pattern.Opening.eq_of_atom h with ⟨c, u, rfl, hc, rfl⟩ | ⟨u, rfl, rfl⟩ | ⟨u, rfl, -, rfl⟩
  · have hc' : c = '.' ∨ Pattern.isSyntaxChar c = false := by
      rcases hc with rfl | hc
      · exact Or.inl rfl
      · exact Or.inr (isSyntaxChar_eq_false hc)
    have hother : c ≠ '\\' ∧ c ≠ '[' ∧ c ≠ '(' := by
      refine ⟨?_, ?_, ?_⟩ <;>
        rintro rfl <;> rcases hc' with hc' | hc' <;> cases hc'
    constructor
    · have hvalue : (['\\', '.', '[', '('].contains c || !Pattern.isSyntaxChar c) = true := by
        rcases hc' with rfl | hc'
        · rfl
        · rw [hc', Bool.not_false, Bool.or_true]
      rw [List.head?_cons, Option.any_some, hvalue] at hat
      exact hat
    · refine (reads_peek text (c :: u) false).silently ?_
      simp only [List.head?_cons, if_neg hother.1, if_neg hother.2.1, if_neg hother.2.2]
      exact reads_skipOne text u c false
  · constructor
    · exact hat
    · refine (reads_peek text ('[' :: u) false).silently ?_
      exact reads_characterClass text u hs false
  · constructor
    · exact hat
    · refine (reads_peek text ('\\' :: u) false).silently ?_
      refine (reads_skipOne text u '\\' false).silently ?_
      exact reads_atomEscape text u (Nat.le_of_succ_le hs) false

theorem performs_term_plain {l : Lexeme Unit} (hs : s.length ≤ depth)
    (h : Pattern.Opening.of s = .atom l) :
    Performs text (term depth contents) false s true
      ((Reading.ofLexeme l).andThen (Reading.ofLexeme (Pattern.quantifier l.rest))) false := by
  have hassertion : Reads text (assertion contents) s ⟨false, s, []⟩ :=
    reads_assertion_none (by simp [h]) (by simp [h])
  obtain ⟨hat, hatom⟩ := reads_atom text hs h
  rw [← Reading.andThen_ofSteps_nil (Reading.ofLexeme (Pattern.quantifier l.rest))]
  exact performs_term_atom (fun _ => []) hassertion hat hatom
    fun q v => performs_endGroup_none text v q

theorem closes_eq (c : Char) : (c == ']' || c == '}') = decide (c = ']' ∨ c = '}') := by
  rw [Bool.decide_or]
  rfl

/-- A problem that is noted before something is read. -/
theorem reads_reported {α β : Type} (text : List Char) {P : Run α} {l : Lexeme α}
    (kind : Problem.Kind) (h : Reads text P s l) (g : α → β) :
    Reads text (do
      report kind
      return g (← P)) s ⟨g l.value, l.rest, ⟨kind, s⟩ :: l.notices⟩ :=
  (reads_report text s kind).bind (h.map g) rfl

/-- What is misplaced is skipped in a turn. -/
theorem performs_termTurn_misplaced {l : Lexeme Unit} (h : Pattern.misplaced? s = some l)
    (hterm : Pattern.term? s = none) (x : Unit) :
    Performs text (termTurn depth x) false s (.again ()) (.ofLexeme l) false := by
  rw [termTurn]
  refine (performs_term_none (Pattern.term?_eq_none_iff.mp hterm)).silently ?_
  unfold Pattern.misplaced? at h
  split at h
  · cases h
  · next c u =>
      refine (reads_nextSatisfies text (c :: u) _ false).silently ?_
      rw [List.head?_cons, Option.any_some, closes_eq]
      split at h
      · next hc =>
          cases h
          rw [decide_eq_true hc]
          exact reads_reported text .strayCloser (reads_skipOne text u c)
            (fun _ => Turn.again ()) false
      · next hc =>
          rw [decide_eq_false hc]
          refine (reads_nextSatisfies text (c :: u) _ false).silently ?_
          rw [List.head?_cons, Option.any_some]
          split at h
          · next hq =>
              cases h
              rw [hq]
              exact reads_reported text .nothingToRepeat (reads_quantifier text (c :: u))
                (fun _ => Turn.again ()) false
          · cases h

/-- The loop over terms is done where nothing is misplaced and no term begins. -/
theorem performs_termTurn_stop (h : Pattern.misplaced? s = none) (hterm : Pattern.term? s = none)
    (x : Unit) :
    Performs text (termTurn depth x) false s (.done ()) (.ofSteps [] s) false := by
  rw [termTurn]
  refine (performs_term_none (Pattern.term?_eq_none_iff.mp hterm)).silently ?_
  refine (reads_nextSatisfies text s _ false).silently ?_
  rcases Pattern.eq_of_stop hterm h with rfl | ⟨c, u, rfl, rfl | rfl⟩
  · refine (reads_nextSatisfies text [] _ false).silently ?_
    exact .pure (Turn.done ()) false []
  · refine (reads_nextSatisfies text (')' :: u) _ false).silently ?_
    exact .pure (Turn.done ()) false (')' :: u)
  · refine (reads_nextSatisfies text ('|' :: u) _ false).silently ?_
    exact .pure (Turn.done ()) false ('|' :: u)

/-- What is misplaced is skipped. -/
theorem performs_misplaced {l : Lexeme Unit} {r : Reading} (h : Pattern.misplaced? s = some l)
    (hterm : Pattern.term? s = none)
    (ha : Performs text (alternative depth) false l.rest () r false) :
    Performs text (alternative (depth + 1)) false s () ((Reading.ofLexeme l).andThen r) false := by
  rw [alternative_eq_loop] at ha
  rw [alternative_eq_loop, loop]
  exact (performs_termTurn_misplaced h hterm ()).bind ha

/-- An alternative ends where nothing is misplaced and no term begins. -/
theorem performs_alternative_stop (h : Pattern.misplaced? s = none)
    (hterm : Pattern.term? s = none) :
    Performs text (alternative (depth + 1)) false s () (.ofSteps [] s) false := by
  rw [alternative_eq_loop, loop]
  exact (performs_termTurn_stop h hterm ()).silently (.pure () false s)

theorem isPrefixOf_bar (h : ∀ u, s ≠ '|' :: u) : ['|'].isPrefixOf s = false := by
  cases hbar : ['|'].isPrefixOf s with
  | false => rfl
  | true =>
      obtain ⟨u, hu⟩ := List.isPrefixOf_iff_prefix.mp hbar
      exact absurd hu.symm (h u)

/-- The procedures perform what the readers return, if their calls may nest deep enough. -/
theorem carried_performs (text : List Char) :
    Pattern.Carried
      (fun s r => ∀ depth, 2 * s.length + 2 ≤ depth →
        Performs text (disjunction depth) false s () r false)
      (fun s r => ∀ depth, 2 * s.length + 1 ≤ depth →
        Performs text (alternative depth) false s () r false)
      (fun s r => ∀ depth, 2 * s.length ≤ depth →
        Performs text (term depth (disjunction depth)) false s true r false) where
  bar s u ha hrest hd depth h := by
    have hshorter : u.length < s.length := by
      have hsuffix : '|' :: u <:+ s := hrest ▸ Pattern.alternative_rest s
      exact hsuffix.length_le
    obtain ⟨depth, rfl⟩ : ∃ k, depth = k + 2 := ⟨depth - 2, by omega⟩
    have hothers := hd (depth + 1) (by omega)
    rw [disjunction] at hothers ⊢
    refine (ha (depth + 1) (by omega)).bind ?_
    rw [hrest, moreAlternatives]
    refine (reads_tryConsume_next text u ['|'] false).silently ?_
    exact (performs_level text u .bar false).bind hothers
  last s ha hrest depth h := by
    obtain ⟨depth, rfl⟩ : ∃ k, depth = k + 2 := ⟨depth - 2, by omega⟩
    rw [disjunction]
    refine (ha (depth + 1) (by omega)).lastly ?_
    rw [moreAlternatives]
    refine (reads_tryConsume_other text (isPrefixOf_bar hrest) false).silently ?_
    exact .pure () false _
  more s r hterm ht ha depth h := by
    have hshorter := (Pattern.term?_rest hterm).2
    obtain ⟨depth, rfl⟩ : ∃ k, depth = k + 1 := ⟨depth - 1, by omega⟩
    rw [alternative]
    exact (ht depth (by omega)).bind (ha depth (by omega))
  misplaced s l hterm hmisplaced ha depth h := by
    have hshorter := (Pattern.misplaced?_rest hmisplaced).2
    obtain ⟨depth, rfl⟩ : ∃ k, depth = k + 1 := ⟨depth - 1, by omega⟩
    exact performs_misplaced hmisplaced hterm (ha depth (by omega))
  stop s hterm hmisplaced depth h := by
    obtain ⟨depth, rfl⟩ : ∃ k, depth = k + 1 := ⟨depth - 1, by omega⟩
    exact performs_alternative_stop hmisplaced hterm
  anchor s u ho depth _ := by
    obtain ⟨k, rfl⟩ := Pattern.Opening.eq_of_anchor ho
    exact performs_anchor text k u
  atom s l ho depth h := performs_term_plain (by omega) ho
  lookaround s negative u ho hd depth h := by
    have hshorter := (Pattern.Opening.of_rest? (congrArg Pattern.Opening.rest? ho)).2
    obtain ⟨k, rfl, rfl⟩ := Pattern.Opening.eq_of_lookaround ho
    exact performs_term_lookaround k (hd depth (by omega))
  group s u ho hd depth h := by
    have hshorter := (Pattern.Opening.of_rest? (congrArg Pattern.Opening.rest? ho)).2
    have hcontents := (Pattern.groupOpening_rest u).length_le
    obtain rfl := Pattern.Opening.eq_of_group ho
    exact performs_term_group (by omega) ho (hd depth (by omega))

theorem performs_disjunction (text s : List Char) (h : 2 * s.length + 2 ≤ depth) :
    Performs text (disjunction depth) false s () (Pattern.disjunction s) false :=
  (carried_performs text).disjunction s depth h

/-- A group whose contents are a disjunction. -/
theorem performs_group_disjunction (text u : List Char) (h : 2 * u.length + 2 ≤ depth) :
    Performs text (group depth (disjunction depth)) false ('(' :: u) () (Pattern.group u) true := by
  have hopening := (Pattern.groupOpening_rest u).length_le
  apply performs_group (by omega)
  exact performs_disjunction text _ (by omega)

/-- The procedure for whole patterns performs what is read of them. -/
theorem performs_whole (text s : List Char) (h : 2 * s.length + 2 ≤ depth) :
    Performs text (do
      disjunction depth
      leftOver depth) false s () (Pattern.read s) false := by
  induction depth generalizing s with
  | zero => exact absurd h (Nat.not_succ_le_zero _)
  | succ depth ih =>
      have hd := performs_disjunction text s h
      rw [Pattern.read_eq, leftOver]
      cases hrest : (Pattern.disjunction s).rest with
      | nil =>
          refine hd.lastly ?_
          rw [hrest]
          refine (reads_place text [] false).silently ?_
          exact .pure () false []
      | cons c u =>
          have hsuffix : c :: u <:+ s := hrest ▸ Pattern.disjunction_rest s
          have hshorter := hsuffix.length_le
          rw [List.length_cons] at hshorter
          refine hd.bind ?_
          rw [hrest]
          refine (reads_place text (c :: u) false).silently ?_
          refine (reads_report text (c :: u) .strayCloser false).bind ?_
          exact (reads_skipOne text u c false).silently (ih u (by omega))

end Patterns

/-- At the end of a pattern, on the outermost level and with no group open, the outcome is that of
what has been read. -/
theorem outcome_at_end (text : List Char) {r : Reading} {inner : Level}
    (h : Nesting.start.run r.steps = ⟨inner, []⟩) (p : Position) :
    (outcome.run' ⟨p, r.notices.map (·.locate text), ⟨inner, []⟩, false⟩).run =
      some (.ok (r.outcome text)) := by
  rw [Reading.outcome, h]
  cases r.notices with
  | nil => rfl
  | cons n notices => rfl

/-- The analysis in place comes to its end, and no move or step on the way there is misused. It ends
on the outermost level, with no group still open, and with the outcome of the analysis. All it needs
is that calls may nest twice as deep as the pattern is long; how much deeper does not matter. -/
theorem analyze_eq_ok (pattern : String) (more : Nat) :
    analyze (2 * pattern.toList.length + 2 + more) pattern =
      some (.ok (NamedCaptures.analyze pattern)) := by
  generalize hdepth : 2 * pattern.toList.length + 2 + more = depth
  have hstart : Position.start pattern.toList = .ofRest pattern.toList pattern.toList := by
    simp [Position.start, Position.ofRest]
  have hwhole : whole depth = (do
      disjunction depth
      leftOver depth) >>= fun _ => outcome := by
    rw [whole, bind_assoc]
  obtain ⟨inner, hlevels, -⟩ := balanced_read pattern.toList .start
  have hdeep : 2 * pattern.toList.length + 2 ≤ depth := by omega
  have hrun := (performs_whole pattern.toList pattern.toList hdeep).run List.suffix_rfl [] .start
  rw [hlevels, List.nil_append] at hrun
  have hbind (m : State) : ((whole depth).run' m).run =
      ((do
        disjunction depth
        leftOver depth) m >>= fun x => outcome.run' x.2).run := by
    rw [hwhole]
    exact congrArg ExceptT.run (map_bind _ _ _)
  rw [analyze, hstart, hbind, hrun]
  exact outcome_at_end pattern.toList (run_of_levels hlevels) _

end NamedCaptures.InPlace
