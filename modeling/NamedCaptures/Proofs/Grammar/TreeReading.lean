import NamedCaptures.Pattern.Disjunction
import NamedCaptures.Proofs.Grammar.TokenReading
import NamedCaptures.Proofs.Grammar.Tree

/-!
# Reading derivation trees

The text of a derivation tree is read without notices, and the steps of nesting that reading it
takes are a function of the tree. The main statement is `Tree.reads`: in front of a closing
parenthesis or at the end of the pattern, exactly the text of a disjunction is read.

## Implementation notes

A reader does not always read the terms of a tree one by one. A back reference takes the digits of
plain atoms behind it along, and an escape for a lead surrogate takes a trail escape along. So the
statement about a term compares whole alternatives, with the term in front and without it.
-/

namespace NamedCaptures.Grammar

open Pattern

/-- What is read behind an atom: what follows it, and the rest of the alternative. -/
def afterAtom (s : List Char) : Reading :=
  (Reading.ofLexeme (quantifier s)).andThen (alternative (quantifier s).rest)

theorem alternative_of_atom {s v : List Char} (h : Opening.of s = .atom ⟨(), v, []⟩) :
    alternative s = afterAtom v := by
  rw [alternative_eq, term?_eq, h]
  rfl

theorem afterAtom_append {s v : List Char} {q : Option Quantifier} (h : Quantification s q)
    (hv : NoQuantifier v) : afterAtom (s ++ v) = alternative v := by
  rw [afterAtom, quantifier_append h hv]
  rfl

theorem afterAtom_of_noQuantifier {v : List Char} (hv : NoQuantifier v) :
    afterAtom v = alternative v :=
  afterAtom_append Quantification.once hv

theorem opening_of_plain {c : Char} (h : c ∉ syntaxChars) (s : List Char) :
    Opening.of (c :: s) = .atom ⟨(), s, []⟩ := by
  have hc := isSyntaxChar_eq_false h
  unfold Opening.of
  split <;> simp_all [syntaxChars]

theorem isDigit_eq_false_of_isQuantifierStart {c : Char} (h : isQuantifierStart c = true) :
    c.isDigit = false := by
  simp only [isQuantifierStart, Bool.or_eq_true, beq_iff_eq] at h
  rcases h with ((rfl | rfl) | rfl) | rfl <;> decide

theorem not_mem_syntaxChars_of_isDigit {c : Char} (h : c.isDigit = true) : c ∉ syntaxChars := by
  intro hmem
  have hnone : syntaxChars.any Char.isDigit = false := by decide
  exact List.any_eq_false.mp hnone c hmem h

/-- Digits that a back reference takes along would have been plain atoms. -/
theorem afterAtom_dropWhile_isDigit {v : List Char} (hv : NoQuantifier v) :
    afterAtom (v.dropWhile Char.isDigit) = alternative v := by
  induction v with
  | nil => exact afterAtom_of_noQuantifier hv
  | cons c t ih =>
      by_cases hc : c.isDigit = true
      · have hplain := not_mem_syntaxChars_of_isDigit hc
        rw [List.dropWhile_cons_of_pos hc, alternative_of_atom (opening_of_plain hplain t)]
        by_cases ht : NoQuantifier t
        · rw [ih ht, afterAtom_of_noQuantifier ht]
        · obtain ⟨d, u, rfl, hd⟩ : ∃ d u, t = d :: u ∧ isQuantifierStart d = true := by
            simpa [NoQuantifier] using ht
          have hdigit := isDigit_eq_false_of_isQuantifierStart hd
          rw [List.dropWhile_cons_of_neg (by simp [hdigit])]
      · rw [List.dropWhile_cons_of_neg hc]
        exact afterAtom_of_noQuantifier hv

theorem opening_of_escape {c : Char} {s : List Char} (hb : c ≠ 'b' ∧ c ≠ 'B') :
    Opening.of ('\\' :: c :: s) = .atom (atomEscape (c :: s)) := by
  simp [Opening.of, hb.1, hb.2]

theorem atomEscape_character {c : Char} (hd : ¬ ('1' ≤ c ∧ c ≤ '9')) (hk : c ≠ 'k')
    (s : List Char) : atomEscape (c :: s) = characterEscape c s := by
  rw [atomEscape, if_neg hd, if_neg hk]

theorem opening_of_trailEscape {v w : List Char} {m : Nat} (h : trailEscape? v = some (m, w)) :
    Opening.of v = .atom ⟨(), w, []⟩ := by
  obtain ⟨es, hes, rfl, hval, htrail⟩ := exists_of_trailEscape? h
  have hlead := isLeadSurrogate_of_isTrailSurrogate htrail
  have hread := unicodeEscape_four hes w (Or.inl (hval ▸ hlead))
  rw [opening_of_escape (by decide), atomEscape_character (by decide) (by decide)]
  simp only [characterEscape, hread, Lexeme.discard]

/-- What an atom without contents is read as. A back reference and the first half of a surrogate
pair may take along a part of what follows. -/
theorem opening_of_leaf {s : List Char} (h : LeafAtom s) (v : List Char) :
    Opening.of (s ++ v) = .atom ⟨(), v, []⟩ ∨
      Opening.of (s ++ v) = .atom ⟨(), v.dropWhile Char.isDigit, []⟩ ∨
      ∃ m w, trailEscape? v = some (m, w) ∧ Opening.of (s ++ v) = .atom ⟨(), w, []⟩ := by
  cases h with
  | plain h => exact Or.inl (opening_of_plain h v)
  | dot => exact Or.inl rfl
  | @characterClass s h =>
      refine Or.inl ?_
      have hread := characterClass_append h v
      simpa [Opening.of] using hread
  | @negatedClass s h =>
      refine Or.inl ?_
      have hread := characterClass_negated h v
      simpa [Opening.of] using hread
  | @backReference c ds hc hds =>
      refine Or.inr (Or.inl ?_)
      have hb : c ≠ 'b' ∧ c ≠ 'B' := by
        constructor
        · rintro rfl
          exact absurd hc (by decide)
        · rintro rfl
          exact absurd hc (by decide)
      rw [List.cons_append, List.cons_append, opening_of_escape hb, atomEscape, if_pos hc,
        List.dropWhile_append_of_pos hds]
  | @namedReference s name h =>
      refine Or.inl ?_
      have hread := groupName_append h v
      have hopen : '\\' :: 'k' :: '<' :: (s ++ ['>']) ++ v =
          '\\' :: 'k' :: '<' :: (s ++ '>' :: v) := by
        simp
      rw [hopen, opening_of_escape (by decide), atomEscape, if_neg (by decide), if_pos rfl, hread]
      rfl
  | @escape c s h hb hd hk =>
      rw [List.cons_append, List.cons_append, opening_of_escape hb, atomEscape_character hd hk]
      rcases characterEscape_append h v with hread | ⟨m, w, hw, hread⟩
      · exact Or.inl (congrArg Opening.atom hread)
      · exact Or.inr (Or.inr ⟨m, w, hw, congrArg Opening.atom hread⟩)

/-- A quantification that is not empty begins with a character that begins a quantifier. -/
theorem Quantification.eq_nil_or_cons {s : List Char} {q : Option Quantifier}
    (h : Quantification s q) :
    s = [] ∨ ∃ c t, s = c :: t ∧ isQuantifierStart c = true := by
  have hbare {s : List Char} {q : Quantifier} (h : BareQuantifier s q) :
      ∃ c t, s = c :: t ∧ isQuantifierStart c = true := by
    cases h <;> exact ⟨_, _, rfl, rfl⟩
  cases h with
  | once => exact Or.inl rfl
  | greedy h => exact Or.inr (hbare h)
  | lazy h =>
      obtain ⟨c, t, rfl, hc⟩ := hbare h
      exact Or.inr ⟨c, t ++ ['?'], rfl, hc⟩

/-- A leaf in front of an alternative changes nothing about how the alternative is read. -/
theorem alternative_leaf {s t : List Char} {q : Option Quantifier} (h : LeafAtom s)
    (hq : Quantification t q) {v : List Char} (hv : NoQuantifier v) :
    alternative (s ++ (t ++ v)) = alternative v := by
  rcases opening_of_leaf h (t ++ v) with hread | hread | ⟨m, w, hw, hread⟩
  · rw [alternative_of_atom hread, afterAtom_append hq hv]
  · rw [alternative_of_atom hread]
    rcases hq.eq_nil_or_cons with rfl | ⟨c, u, rfl, hc⟩
    · exact afterAtom_dropWhile_isDigit hv
    · have hdigit := isDigit_eq_false_of_isQuantifierStart hc
      rw [List.cons_append, List.dropWhile_cons_of_neg (by simp [hdigit]), ← List.cons_append,
        afterAtom_append hq hv]
  · rcases hq.eq_nil_or_cons with rfl | ⟨c, u, rfl, hc⟩
    · exact (alternative_of_atom hread).trans
        (alternative_of_atom (opening_of_trailEscape hw)).symm
    · obtain ⟨es, -, heq, -, -⟩ := exists_of_trailEscape? hw
      obtain ⟨rfl, -⟩ := List.cons.inj heq
      cases hc

theorem noQuantifier_of_alternative {v : List Char} (h : (alternative v).notices = []) :
    NoQuantifier v := by
  rintro c t rfl
  by_contra hc
  rw [Bool.not_eq_false] at hc
  have hterm : term? (c :: t) = none := by
    rw [term?_eq]
    simp only [isQuantifierStart, Bool.or_eq_true, beq_iff_eq] at hc
    rcases hc with ((rfl | rfl) | rfl) | rfl <;> rfl
  have hne : ¬ (c = ']' ∨ c = '}') := by
    rintro (rfl | rfl) <;> exact absurd hc (by decide)
  rw [alternative_eq, hterm] at h
  simp [misplaced?, hne, hc] at h

theorem noQuantifier_of_disjunction {v : List Char} (h : (disjunction v).notices = []) :
    NoQuantifier v := by
  apply noQuantifier_of_alternative
  rw [disjunction_eq] at h
  split at h
  · exact (List.append_eq_nil_iff.mp h).1
  · exact h

theorem NoQuantifier.ne_mark {c : Char} {t : List Char} (h : NoQuantifier (c :: t)) : c ≠ '?' := by
  rintro rfl
  exact absurd (h _ _ rfl) (by decide)

theorem opening_of_lookaround (k : Lookaround) (v : List Char) :
    Opening.of ('(' :: (k.text ++ v)) = .lookaround k.negative v := by
  cases k <;> rfl

/-- The first character of a spelled name is a backslash or begins an identifier. -/
theorem SpellsName.exists_cons {s name : List Char} (h : SpellsName s name) :
    ∃ c t, s = c :: t ∧ (c = '\\' ∨ Identifier.isStart c = true) := by
  cases h with
  | mk h hc ht =>
      cases h with
      | literal => exact ⟨_, _, rfl, Or.inr hc⟩
      | escape h => exact ⟨_, _, rfl, Or.inl rfl⟩
      | pair hd he hlead htrail hval => exact ⟨_, _, rfl, Or.inl rfl⟩

theorem opening_of_opener (o : Opener) {v : List Char} (hv : NoQuantifier v) :
    Opening.of ('(' :: (o.text ++ v)) = .group (o.text ++ v) := by
  cases o with
  | unmarked =>
      cases v with
      | nil => rfl
      | cons c t => simp [Opener.text, Opening.of, hv.ne_mark]
  | withoutCapture => rfl
  | named s name h =>
      obtain ⟨c, t, rfl, hc⟩ := h.exists_cons
      have hne : c ≠ '=' ∧ c ≠ '!' := by
        constructor
        · rintro rfl
          exact absurd hc (by decide +kernel)
        · rintro rfl
          exact absurd hc (by decide +kernel)
      simp [Opener.text, Opening.of, hne.1, hne.2]

theorem groupOpening_append (o : Opener) {v : List Char} (hv : NoQuantifier v) :
    groupOpening (o.text ++ v) = ⟨o.name?, v, []⟩ := by
  cases o with
  | unmarked =>
      cases v with
      | nil => rfl
      | cons c t => simp [Opener.text, Opener.name?, groupOpening, hv.ne_mark]
  | withoutCapture => rfl
  | named s name h =>
      have hread := groupName_append h v
      simpa [Opener.text, Opener.name?, groupOpening] using hread

/-- A group is read to its closing parenthesis if its contents are. -/
theorem group_of_contents (o : Opener) {s v : List Char} {steps : List Nesting.Step}
    (h : disjunction s = ⟨')' :: v, [], steps⟩) :
    group (o.text ++ s) = ⟨v, [], openingSteps o.name? ++ (steps ++ [.settle])⟩ := by
  have hs : NoQuantifier s := noQuantifier_of_disjunction (by rw [h])
  simp [group_eq, groupOpening_append o hs, h, closingParenthesis, Reading.ofLexeme,
    Reading.ofSteps, Reading.andThen]

/-- A lookaround is read to its closing parenthesis if its contents are. -/
theorem lookaround_of_contents (negative : Bool) {s v : List Char} {steps : List Nesting.Step}
    (h : disjunction s = ⟨')' :: v, [], steps⟩) :
    lookaround negative s =
      ⟨v, [], .descend :: (steps ++ .settle :: lookaroundSteps negative)⟩ := by
  simp [lookaround_eq, h, closingParenthesis, Reading.ofLexeme, Reading.ofSteps, Reading.andThen]

theorem alternative_of_anchor (k : Anchor) (v : List Char) :
    alternative (k.text ++ v) = (Reading.ofSteps [] v).andThen (alternative v) := by
  have hopen : Opening.of (k.text ++ v) = .anchor v := by cases k <;> rfl
  rw [alternative_eq, term?_eq, hopen]
  rfl

theorem alternative_of_lookaround (k : Lookaround) {s v : List Char} {steps : List Nesting.Step}
    (h : disjunction s = ⟨')' :: v, [], steps⟩) :
    alternative ('(' :: (k.text ++ s)) =
      (Reading.ofSteps (.descend :: (steps ++ .settle :: lookaroundSteps k.negative)) v).andThen
        (alternative v) := by
  rw [alternative_eq, term?_eq, opening_of_lookaround]
  simp only [lookaround_of_contents k.negative h]
  rfl

/-- Behind a group with well-formed contents its quantifier is read, well formed or not. -/
theorem alternative_of_closedGroup (o : Opener) {s t : List Char} {steps : List Nesting.Step}
    (h : disjunction s = ⟨')' :: t, [], steps⟩) :
    alternative ('(' :: (o.text ++ s)) =
      (Reading.mk (quantifier t).rest (quantifier t).notices (openingSteps o.name? ++
          (steps ++ .settle :: quantifiedSteps (quantifier t).value))).andThen
        (alternative (quantifier t).rest) := by
  have hopen := opening_of_opener o (noQuantifier_of_disjunction (v := s) (by rw [h]))
  rw [alternative_eq, term?_eq, hopen]
  simp only [group_of_contents o h]
  simp [Reading.andThen, Reading.ofLexeme, Reading.ofSteps]

theorem alternative_of_group (o : Opener) {s t v : List Char} {steps : List Nesting.Step}
    (h : disjunction s = ⟨')' :: (t ++ v), [], steps⟩) {q : Option Quantifier}
    (hq : Quantification t q) (hv : NoQuantifier v) :
    alternative ('(' :: (o.text ++ s)) =
      (Reading.ofSteps (openingSteps o.name? ++ (steps ++ .settle :: quantifiedSteps q)) v).andThen
        (alternative v) := by
  rw [alternative_of_closedGroup o h, quantifier_append hq hv]
  rfl

/-- A text that is empty or begins with one of certain characters. -/
def EndsAt (cs : List Char) (v : List Char) : Prop :=
  ∀ c t, v = c :: t → c ∈ cs

namespace Tree

/-- The steps of nesting that reading the text of a tree takes. -/
def steps : {p : Part} → Tree p → List Nesting.Step
  | _, single a => a.steps
  | _, bar a d => a.steps ++ .bar :: d.steps
  | _, nil => []
  | _, cons t a => t.steps ++ a.steps
  | _, anchor _ => []
  | _, lookaround k d => .descend :: (d.steps ++ .settle :: lookaroundSteps k.negative)
  | _, leaf _ _ _ => []
  | _, group o d q => openingSteps o.name? ++ (d.steps ++ .settle :: quantifiedSteps q.quantifier)

/-- What the readers do with the text of a tree and what follows it. -/
def Reads : {p : Part} → Tree p → Prop
  | .disjunction, d => ∀ v, EndsAt [')'] v → disjunction (d.text ++ v) = ⟨v, [], d.steps⟩
  | .alternative, a => ∀ v, EndsAt [')', '|'] v → alternative (a.text ++ v) = ⟨v, [], a.steps⟩
  | .term, t => ∀ v, (alternative v).notices = [] →
      alternative (t.text ++ v) = (Reading.ofSteps t.steps v).andThen (alternative v)

end Tree

theorem disjunction_of_alternative {s v : List Char} {steps : List Nesting.Step}
    (h : alternative s = ⟨v, [], steps⟩) (hv : EndsAt [')'] v) :
    disjunction s = ⟨v, [], steps⟩ := by
  rw [disjunction_eq, h]
  split
  · next t heq => exact absurd (hv '|' t heq) (by decide)
  · rfl

theorem alternative_of_endsAt {v : List Char} (hv : EndsAt [')', '|'] v) :
    alternative v = ⟨v, [], []⟩ := by
  cases v with
  | nil =>
      rw [alternative_eq, term?_eq]
      rfl
  | cons c t =>
      have hc := hv c t rfl
      simp only [List.mem_cons, List.not_mem_nil, or_false] at hc
      rw [alternative_eq, term?_eq]
      rcases hc with rfl | rfl <;> rfl

theorem Tree.reads {p : Part} (t : Tree p) : t.Reads := by
  induction t with
  | single a ih =>
      intro v hv
      have hmem : EndsAt [')', '|'] v := fun c t hc => by
        have := hv c t hc
        simp_all
      exact disjunction_of_alternative (ih v hmem) hv
  | bar a d iha ihd =>
      intro v hv
      have hread := iha ('|' :: (d.text ++ v)) (by rintro c t ⟨⟩; decide)
      rw [Tree.text, List.append_assoc, List.cons_append, disjunction_eq, hread]
      simp [ihd v hv, Reading.andThen, Reading.ofSteps, Tree.steps]
  | nil => exact fun v hv => alternative_of_endsAt hv
  | cons t a iht iha =>
      intro v hv
      have hread := iha v hv
      rw [Tree.text, List.append_assoc, iht (a.text ++ v) (by rw [hread]), hread]
      rfl
  | anchor k => exact fun v _ => alternative_of_anchor k v
  | lookaround k d ih =>
      intro v _
      have hread := alternative_of_lookaround k (ih (')' :: v) (by rintro c t ⟨⟩; decide))
      simpa [Tree.text, Tree.steps] using hread
  | leaf s h q =>
      intro v hv
      rw [Tree.text, List.append_assoc,
        alternative_leaf h q.derived (noQuantifier_of_alternative hv)]
      rfl
  | group o d q ih =>
      intro v hv
      have hcontents := ih (')' :: (q.text ++ v)) (by rintro c t ⟨⟩; decide)
      have hread := alternative_of_group o hcontents q.derived (noQuantifier_of_alternative hv)
      simpa [Tree.text, Tree.steps] using hread

end NamedCaptures.Grammar
