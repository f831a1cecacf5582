import NamedCaptures.Proofs.Grammar.TreeReading
import NamedCaptures.Proofs.Lookahead.Tokens

/-!
# Patterns with more text behind

The readers of terms, alternatives and disjunctions are stable under more text behind. So is what
is wrong with a pattern, except near its end: a problem with at least as much text before it as the
longest decision takes is found again, in the same order, whatever text is added
(`problems_stable`).

## Implementation notes

How a term begins is decided by four characters at most (`extends_opening`). A reader of groups
looks as far as the readers of tokens do, so the argument for it is only that readings in a row
stay stable, along the equations of the readers.
-/

namespace NamedCaptures

namespace Lookahead

open Pattern Grammar

variable {s : List Char} (t : List Char)

/-- The same beginning of a term, with more text behind. -/
def ExtendsOpening (t : List Char) : Opening → Opening → Prop
  | .anchor u, o => o = .anchor (u ++ t)
  | .lookaround negative u, o => o = .lookaround negative (u ++ t)
  | .group u, o => o = .group (u ++ t)
  | .atom l, o => ∃ l', o = .atom l' ∧ StableLexeme t l l'
  | .none, o => o = .none

/-- A parenthesis that begins no lookaround begins a group. -/
theorem opening_of_parenthesis (u : List Char) :
    (∃ (k : Lookaround) (v : List Char), u = k.text ++ v) ∨ Opening.of ('(' :: u) = .group u := by
  cases ho : Opening.of ('(' :: u) with
  | lookaround negative v =>
      obtain ⟨k, -, hk⟩ := Opening.eq_of_lookaround ho
      exact Or.inl ⟨k, v, (List.cons.inj hk).2⟩
  | group v => exact Or.inr (by rw [(List.cons.inj (Opening.eq_of_group ho)).2])
  | anchor v =>
      obtain ⟨k, hk⟩ := Opening.eq_of_anchor ho
      cases k <;> cases hk
  | atom l =>
      rcases Opening.eq_of_atom ho with ⟨c, v, hv, hc, -⟩ | ⟨v, hv, -⟩ | ⟨v, hv, -⟩
      · cases hv
        exact absurd hc (by decide)
      · cases hv
      · cases hv
  | none =>
      rcases Opening.eq_of_none ho with hnil | ⟨c, v, hv, hc⟩
      · cases hnil
      · cases hv
        exact absurd hc (by decide)

/-- What begins a lookaround is at most three characters behind the parenthesis. -/
theorem Lookaround.eq_append {k : Lookaround} {u v : List Char} (h : 3 ≤ u.length)
    (heq : u ++ t = k.text ++ v) : ∃ w, u = k.text ++ w := by
  have hk : k.text.length ≤ u.length := by
    cases k <;> simp only [Lookaround.text, List.length_cons, List.length_nil] <;> omega
  obtain ⟨w, hw⟩ := List.prefix_of_prefix_length_le
    ⟨v, heq.symm⟩ (List.prefix_append u t) hk
  exact ⟨w, hw.symm⟩

theorem opening_of_group_append {u : List Char} (h : 3 ≤ u.length)
    (ho : Opening.of ('(' :: u) = .group u) :
    Opening.of ('(' :: (u ++ t)) = .group (u ++ t) := by
  refine (opening_of_parenthesis (u ++ t)).resolve_left ?_
  rintro ⟨k, v, hv⟩
  obtain ⟨w, rfl⟩ := Lookaround.eq_append t h hv
  rw [opening_of_lookaround] at ho
  cases ho

theorem extends_opening (h : 4 ≤ s.length) :
    ExtendsOpening t (Opening.of s) (Opening.of (s ++ t)) := by
  cases ho : Opening.of s with
  | anchor u =>
      obtain ⟨k, rfl⟩ := Opening.eq_of_anchor ho
      rw [List.append_assoc]
      exact opening_of_anchor k (u ++ t)
  | lookaround negative u =>
      obtain ⟨k, rfl, rfl⟩ := Opening.eq_of_lookaround ho
      rw [List.cons_append, List.append_assoc]
      exact opening_of_lookaround k (u ++ t)
  | group u =>
      obtain rfl := Opening.eq_of_group ho
      exact opening_of_group_append t (Nat.le_of_succ_le_succ h) ho
  | atom l =>
      rcases Opening.eq_of_atom ho with ⟨c, u, rfl, hc, rfl⟩ | ⟨u, rfl, rfl⟩ | ⟨u, rfl, hu, rfl⟩
      · refine ⟨⟨(), u ++ t, []⟩, ?_, Or.inl rfl⟩
        rcases hc with rfl | hc
        · rfl
        · exact opening_of_plain hc (u ++ t)
      · exact ⟨characterClass (u ++ t), rfl, stable_characterClass t u⟩
      · refine ⟨atomEscape (u ++ t), ?_, stable_atomEscape t u⟩
        match u, hu with
        | [], _ => exact absurd h (by decide)
        | c :: u, hu =>
            apply opening_of_escape
            constructor
            · rintro rfl
              exact (hu u).1 rfl
            · rintro rfl
              exact (hu u).2 rfl
  | none =>
      rcases Opening.eq_of_none ho with rfl | ⟨c, u, rfl, hc⟩
      · exact absurd h (by decide)
      · exact opening_of_none hc (u ++ t)

/-- Whether something is misplaced at the front of a text is decided by its first character. -/
theorem misplaced?_append_none (hs : s ≠ []) (h : misplaced? s = none) :
    misplaced? (s ++ t) = none := by
  cases s with
  | nil => exact absurd rfl hs
  | cons c u =>
      rw [List.cons_append]
      simp only [misplaced?] at h ⊢
      split at h
      · cases h
      · next hclosing =>
          split at h
          · cases h
          · next hquantifier => rw [if_neg hclosing, if_neg hquantifier]

theorem misplaced?_append_some {l : Lexeme Unit} (h : misplaced? s = some l) :
    ∃ l', misplaced? (s ++ t) = some l' ∧ StableLexeme t l l' := by
  cases s with
  | nil => cases h
  | cons c u =>
      rw [List.cons_append]
      simp only [misplaced?] at h ⊢
      split at h
      · next hclosing =>
          cases h
          exact ⟨_, if_pos hclosing, Or.inl rfl⟩
      · next hclosing =>
          split at h
          · next hquantifier =>
              cases h
              rw [if_neg hclosing, if_pos hquantifier]
              have hread := stable_quantifier t (c :: u)
              have hfirst : StableLexeme t ⟨(), c :: u, [⟨.nothingToRepeat, c :: u⟩]⟩
                ⟨(), c :: u ++ t, [⟨.nothingToRepeat, c :: u ++ t⟩]⟩ := Or.inl rfl
              exact ⟨_, rfl, hfirst.andThen (fun _ _ => ()) (inOrder_quantifier (c :: u))
                fun _ => hread⟩
          · cases h

theorem term?_append_none (hs : window ≤ s.length) (h : term? s = none) :
    term? (s ++ t) = none := by
  have hopen := extends_opening t (Nat.le_trans (by decide) hs)
  rw [term?_eq_none_iff.mp h] at hopen
  exact term?_eq_none_iff.mpr hopen

/-- The contents of a lookaround or group with the parenthesis that closes them. -/
theorem stable_closed {u : List Char} (h : Stable t (disjunction u) (disjunction (u ++ t)))
    (steps : List Nesting.Step) :
    Stable t
      ((disjunction u).andThen ((closingParenthesis (disjunction u).rest).andThen
        (Reading.ofSteps steps (closingParenthesis (disjunction u).rest).rest)))
      ((disjunction (u ++ t)).andThen ((closingParenthesis (disjunction (u ++ t)).rest).andThen
        (Reading.ofSteps steps (closingParenthesis (disjunction (u ++ t)).rest).rest))) := by
  refine h.thenRead (f := fun v => (closingParenthesis v).andThen
    (Reading.ofSteps steps (closingParenthesis v).rest)) ?_ ?_
  · simpa using inOrder_closingParenthesis (disjunction u).rest
  · have hclose := (stable_expect t ')' .unclosedGroup (disjunction u).rest).ofLexeme
    exact hclose.thenRead (.nil List.suffix_rfl) (.ofSteps steps _)

theorem stable_lookaround (negative : Bool) {u : List Char}
    (h : Stable t (disjunction u) (disjunction (u ++ t))) :
    Stable t (lookaround negative u) (lookaround negative (u ++ t)) := by
  rw [lookaround_eq, lookaround_eq]
  refine (Stable.ofSteps [.descend] u).andThen ?_ fun _ => stable_closed t h _
  have ho := (disjunction_inOrder u).append (inOrder_closingParenthesis _)
  simpa using ho

theorem stable_group {u : List Char}
    (h : Stable t (disjunction (groupOpening u).rest) (disjunction ((groupOpening u).rest ++ t))) :
    Stable t (group u) (group (u ++ t)) := by
  have ho := (disjunction_inOrder (groupOpening u).rest).append (inOrder_closingParenthesis _)
  rw [group_eq, group_eq]
  rcases stable_groupOpening t u with heq | hlate
  · rw [heq]
    have hopening : Stable t (.ofLexeme (groupOpening u)) (.ofLexeme ((groupOpening u).extend t)) :=
      Or.inl rfl
    refine hopening.andThen (by simpa using ho) fun _ => ?_
    refine (Stable.ofSteps (openingSteps (groupOpening u).value) _).andThen (by simpa using ho) ?_
    intro _
    exact stable_closed t h [.settle]
  · refine Or.inr (hlate.append ?_ _)
    simpa using ho

/-- A quantifier behind a group, which decides how the group ends. -/
theorem stable_quantified (s : List Char) :
    Stable t
      ((Reading.ofLexeme (quantifier s)).andThen
        (Reading.ofSteps (quantifiedSteps (quantifier s).value) (quantifier s).rest))
      ((Reading.ofLexeme (quantifier (s ++ t))).andThen
        (Reading.ofSteps (quantifiedSteps (quantifier (s ++ t)).value)
          (quantifier (s ++ t)).rest)) := by
  rcases stable_quantifier t s with heq | hlate
  · rw [heq, Stable, Reading.extend_andThen]
    exact Or.inl rfl
  · exact Or.inr (hlate.append (.nil List.suffix_rfl) [])

theorem alternative_inOrder (s : List Char) :
    InOrder s (alternative s).rest (alternative s).notices :=
  carried_inOrder.alternative s

/-- Of a short text, any reading is stable. -/
theorem stable_disjunction_of_long
    (h : window ≤ s.length → Stable t (disjunction s) (disjunction (s ++ t))) :
    Stable t (disjunction s) (disjunction (s ++ t)) := by
  by_cases hs : s.length < window
  · exact .of_short hs (disjunction_inOrder s) _
  · exact h (Nat.le_of_not_lt hs)

theorem stable_alternative_of_long
    (h : window ≤ s.length → Stable t (alternative s) (alternative (s ++ t))) :
    Stable t (alternative s) (alternative (s ++ t)) := by
  by_cases hs : s.length < window
  · exact .of_short hs (alternative_inOrder s) _
  · exact h (Nat.le_of_not_lt hs)

/-- What a disjunction notes first is what its first alternative notes. -/
theorem exists_disjunction_notices (s : List Char) :
    ∃ others, (disjunction s).notices = (alternative s).notices ++ others := by
  rw [disjunction_eq]
  split
  · exact ⟨_, rfl⟩
  · exact ⟨[], (List.append_nil _).symm⟩

theorem disjunction_eq_alternative (h : ∀ u, (alternative s).rest ≠ '|' :: u) :
    disjunction s = alternative s := by
  rw [disjunction_eq]
  split
  · next u hu => exact absurd hu (h u)
  · rfl

/-- Stability is carried along by all the readers. -/
theorem carried_stable :
    Carried
      (fun s r => window ≤ s.length → Stable t r (disjunction (s ++ t)))
      (fun s r => window ≤ s.length → Stable t r (alternative (s ++ t)))
      (fun s r => window ≤ s.length → ∃ r', term? (s ++ t) = some r' ∧ Stable t r r') where
  bar s u ha hu hd := by
    intro hs
    have hothers : InOrder (alternative s).rest (disjunction u).rest (disjunction u).notices := by
      rw [hu]
      exact (disjunction_inOrder u).behind (List.suffix_cons _ _)
    rcases ha hs with heq | hlate
    · have hbar : (alternative (s ++ t)).rest = '|' :: (u ++ t) := by
        rw [heq, Reading.extend, hu]
        rfl
      rw [disjunction_eq (s ++ t), hbar]
      refine Stable.andThen (Or.inl heq) (by simpa using hothers) fun _ => ?_
      refine (Stable.ofSteps [.bar] u).andThen (by simpa using disjunction_inOrder u) fun _ => ?_
      exact stable_disjunction_of_long t hd
    · obtain ⟨others, hnotices⟩ := exists_disjunction_notices (s ++ t)
      rw [Stable, hnotices]
      exact Or.inr (hlate.append (by simpa using hothers) others)
  last s ha hne := by
    intro hs
    obtain ⟨others, hnotices⟩ := exists_disjunction_notices (s ++ t)
    rcases ha hs with heq | hlate
    · cases hrest : (alternative s).rest with
      | nil =>
          -- the text behind may begin with a bar
          rw [Stable, hnotices, heq, hrest]
          exact Or.inr ((Late.of_eq nil_near _).others others)
      | cons c v =>
          refine Or.inl ((disjunction_eq_alternative ?_).trans heq)
          intro u hu
          rw [heq, Reading.extend, hrest] at hu
          exact hne v (by rw [hrest, (List.cons.inj hu).1])
    · rw [Stable, hnotices]
      exact Or.inr (hlate.others others)
  more s r hr ht ha := by
    intro hs
    obtain ⟨r', hr', hstable⟩ := ht hs
    rw [alternative_eq (s ++ t), hr']
    exact hstable.thenRead (alternative_inOrder r.rest) (stable_alternative_of_long t ha)
  misplaced s l hterm hl ha := by
    intro hs
    obtain ⟨l', hl', hstable⟩ := misplaced?_append_some t hl
    rw [alternative_eq (s ++ t), term?_append_none t hs hterm, hl']
    exact hstable.ofLexeme.thenRead (alternative_inOrder l.rest) (stable_alternative_of_long t ha)
  stop s hterm hmisplaced := by
    intro hs
    have hne : s ≠ [] := by
      rintro rfl
      exact absurd hs (by decide)
    rw [alternative_eq (s ++ t), term?_append_none t hs hterm,
      misplaced?_append_none t hne hmisplaced]
    exact .ofSteps [] s
  anchor s u ho := by
    intro hs
    have hopen := extends_opening t (Nat.le_trans (by decide) hs)
    rw [ho] at hopen
    rw [term?_eq, hopen]
    exact ⟨_, rfl, .ofSteps [] u⟩
  atom s l ho := by
    intro hs
    have hopen := extends_opening t (Nat.le_trans (by decide) hs)
    rw [ho] at hopen
    obtain ⟨l', hl', hstable⟩ := hopen
    rw [term?_eq, hl']
    refine ⟨_, rfl, ?_⟩
    exact hstable.ofLexeme.thenRead (f := fun v => Reading.ofLexeme (quantifier v))
      (inOrder_quantifier l.rest) (stable_quantifier t l.rest).ofLexeme
  lookaround s negative u ho hd := by
    intro hs
    have hopen := extends_opening t (Nat.le_trans (by decide) hs)
    rw [ho] at hopen
    rw [term?_eq, hopen]
    exact ⟨_, rfl, stable_lookaround t negative (stable_disjunction_of_long t hd)⟩
  group s u ho hd := by
    intro hs
    have hopen := extends_opening t (Nat.le_trans (by decide) hs)
    rw [ho] at hopen
    rw [term?_eq, hopen]
    refine ⟨_, rfl, ?_⟩
    have hgroup := stable_group t (stable_disjunction_of_long t hd)
    refine hgroup.thenRead (f := fun v => (Reading.ofLexeme (quantifier v)).andThen
      (Reading.ofSteps (quantifiedSteps (quantifier v).value) (quantifier v).rest)) ?_
      (stable_quantified t _)
    simpa using inOrder_quantifier (group u).rest

theorem stable_disjunction (s : List Char) : Stable t (disjunction s) (disjunction (s ++ t)) :=
  stable_disjunction_of_long t ((carried_stable t).disjunction s)

/-- What reading a whole pattern notes first is what its first disjunction notes. -/
theorem exists_read_notices (s : List Char) :
    ∃ others, (read s).notices = (disjunction s).notices ++ others ∧
      InOrder (disjunction s).rest [] others := by
  rw [read_eq]
  split
  · next h => exact ⟨[], (List.append_nil _).symm, by rw [h]; exact .nil List.suffix_rfl⟩
  · next c u h =>
      refine ⟨_, rfl, ?_⟩
      rw [h]
      exact .cons List.suffix_rfl ((read_inOrder u).behind (List.suffix_cons c u))

theorem begins_read (s : List Char) : Begins t (read s).notices (read (s ++ t)).notices := by
  fun_induction read s with
  | case1 s contents h =>
      obtain ⟨others, hothers, -⟩ := exists_read_notices (s ++ t)
      have hlate := (stable_disjunction t s).late (by rw [h]; exact nil_near)
      rw [hothers]
      exact (hlate.others others).begins
  | case2 s contents c u h _ ih =>
      rcases stable_disjunction t s with heq | hlate
      · have hrest : (disjunction (s ++ t)).rest = c :: (u ++ t) := by
          rw [heq, Reading.extend, h]
          rfl
        rw [read_eq (s ++ t), hrest, heq]
        exact (ih.prepend [⟨.strayCloser, c :: u⟩]).prepend contents.notices
      · obtain ⟨others, hothers, -⟩ := exists_read_notices (s ++ t)
        have ho : InOrder contents.rest [] (⟨.strayCloser, c :: u⟩ :: (read u).notices) := by
          rw [h]
          exact .cons List.suffix_rfl ((read_inOrder u).behind (List.suffix_cons c u))
        rw [hothers]
        exact (hlate.append ho others).begins

end Lookahead

/-- The same problem in a pattern with more text behind. -/
def Problem.extend (more : String) (p : Problem) : Problem :=
  { p with remaining := p.remaining ++ more }

namespace Lookahead

open Pattern

/-- The place of a notice stays where it is when text is added. -/
theorem locate_extend {s : List Char} (t : List Char) {n : Notice} (h : n.rest <:+ s) :
    (n.extend t).locate (s ++ t) = (n.locate s).extend (String.ofList t) := by
  obtain ⟨front, hfront⟩ := h
  rw [← hfront]
  simp [Notice.locate, Notice.extend, Problem.at, Problem.extend]

theorem length_remaining_locate (s : List Char) (n : Notice) :
    (n.locate s).remaining.length = n.rest.length := by
  simp [Notice.locate, Problem.at, Position.ofRest]

/-- Notices are in the order of the text, so those well before its end are the first ones. -/
theorem filter_isPrefix {ns : List Notice} (ho : ns.Pairwise fun n m => m.rest <:+ n.rest)
    (k : Nat) : (ns.filter fun n => k ≤ n.rest.length) <+: ns := by
  induction ns with
  | nil => exact List.prefix_rfl
  | cons n ns ih =>
      obtain ⟨hn, hns⟩ := List.pairwise_cons.mp ho
      by_cases hk : k ≤ n.rest.length
      · rw [List.filter_cons_of_pos (by simpa using hk)]
        exact (List.prefix_cons_inj n).mpr (ih hns)
      · have hnone : (n :: ns).filter (fun m => k ≤ m.rest.length) = [] := by
          apply List.filter_eq_nil_iff.mpr
          intro m hm
          have hle : m.rest.length ≤ n.rest.length := by
            rcases List.mem_cons.mp hm with rfl | hm
            · exact Nat.le_refl _
            · exact (hn m hm).length_le
          simp only [decide_eq_true_eq]
          omega
        rw [hnone]
        exact List.nil_prefix

/-- The notices well before the end of a text are noted first, whatever text is added. -/
theorem Begins.filter_isPrefix {s t : List Char} {ns ms : List Notice} (h : Begins t ns ms)
    (ho : InOrder s [] ns) :
    (ns.filter fun n => window ≤ n.rest.length).map (·.extend t) <+: ms := by
  obtain ⟨early, late, others, rfl, rfl, hlate⟩ := h
  have hnone : late.filter (fun n => window ≤ n.rest.length) = [] := by
    apply List.filter_eq_nil_iff.mpr
    intro n hn
    have := hlate n hn
    simp only [decide_eq_true_eq]
    omega
  have hearly := Lookahead.filter_isPrefix (List.pairwise_append.mp ho.ordered).1 window
  rw [List.filter_append, hnone, List.append_nil]
  exact (hearly.map _).trans (List.prefix_append _ others)

/-- What is wrong at a place with at least twelve characters from there to the end of the pattern
is found first, in the same order, whatever text is added to the pattern. -/
theorem problems_stable (pattern more : String) :
    ((analyze pattern).problems.filter fun p => 12 ≤ p.remaining.length).map (·.extend more) <+:
      (analyze (pattern ++ more)).problems := by
  have ho := read_inOrder pattern.toList
  have hbegins := (begins_read more.toList pattern.toList).filter_isPrefix ho
  have hlocate : (((read pattern.toList).notices.map (·.locate pattern.toList)).filter
        fun p => 12 ≤ p.remaining.length).map (·.extend more) =
      (((read pattern.toList).notices.filter fun n => window ≤ n.rest.length).map
        (·.extend more.toList)).map (·.locate (pattern.toList ++ more.toList)) := by
    rw [List.filter_map, List.map_map, List.map_map]
    simp only [Function.comp_def, length_remaining_locate]
    apply List.map_congr_left
    intro n hn
    have hwithin := (ho.within n (List.mem_of_mem_filter hn)).1
    rw [locate_extend _ hwithin, String.ofList_toList]
  rw [problems_analyze, problems_analyze, String.toList_append, hlocate]
  exact hbegins.map _

/-- With eleven characters it is open whether two escapes in a name are one character of it. -/
example :
    ((analyze "(?<\\ud835\\udc0").problems.map fun p => (p.kind, p.remaining.length)).head? =
        some (.badGroupNameEscape, 11) ∧
      (analyze "(?<\\ud835\\udc00").problems.all fun p => p.kind ≠ .badGroupNameEscape := by
  decide +kernel

end Lookahead

end NamedCaptures
