import NamedCaptures.Proofs.Grammar.TokenRecognition
import NamedCaptures.Proofs.Grammar.TreeReading
import NamedCaptures.Proofs.Readers.Induction
import NamedCaptures.Proofs.Readers.Opening

/-!
# Recognising derivation trees

What the readers have passed over when they note nothing is the text of a derivation tree. The main
statement is `disjunction_recognised`, by induction over the readers.
-/

namespace NamedCaptures.Grammar

open Pattern

/-- A text that makes an alternative out of any alternative behind it: the text of terms. -/
def Leads (u : List Char) : Prop :=
  ∀ a : Tree .alternative, ∃ b : Tree .alternative, b.text = u ++ a.text

namespace Leads

theorem term (t : Tree .term) : Leads t.text :=
  fun a => ⟨.cons t a, rfl⟩

theorem append {u v : List Char} (hu : Leads u) (hv : Leads v) : Leads (u ++ v) := by
  intro a
  obtain ⟨b, hb⟩ := hv a
  obtain ⟨c, hc⟩ := hu b
  exact ⟨c, by rw [hc, hb, List.append_assoc]⟩

theorem leaf {s : List Char} (h : LeafAtom s) {t : List Char} {q : Option Quantifier}
    (hq : Quantification t q) : Leads (s ++ t) :=
  term (.leaf s h ⟨t, q, hq⟩)

end Leads

/-- A text that is an atom without contents as soon as what follows an atom stands behind it,
possibly with another such atom in front. -/
def LeadsAtom (u : List Char) : Prop :=
  ∀ t q, Quantification t q → Leads (u ++ t)

theorem LeadsAtom.leaf {s : List Char} (h : LeafAtom s) : LeadsAtom s :=
  fun _ _ hq => Leads.leaf h hq

theorem LeadsAtom.pair {s u : List Char} (hs : LeafAtom s) (hu : LeafAtom u) :
    LeadsAtom (s ++ u) := by
  intro t q hq
  have hfirst := Leads.leaf hs .once
  rw [List.append_nil] at hfirst
  rw [List.append_assoc]
  exact hfirst.append (Leads.leaf hu hq)

theorem atomEscape_recognised {c : Char} {s : List Char} (hb : c ≠ 'b' ∧ c ≠ 'B')
    (h : (atomEscape (c :: s)).notices = []) :
    ∃ u, c :: s = u ++ (atomEscape (c :: s)).rest ∧ LeadsAtom ('\\' :: u) := by
  by_cases hd : '1' ≤ c ∧ c ≤ '9'
  · rw [atomEscape, if_pos hd]
    refine ⟨c :: s.takeWhile Char.isDigit, ?_, .leaf (.backReference hd ?_)⟩
    · rw [List.cons_append, List.takeWhile_append_dropWhile]
    · exact List.all_eq_true.mp List.all_takeWhile
  · by_cases hk : c = 'k'
    · subst hk
      rw [atomEscape, if_neg hd, if_pos rfl] at h ⊢
      obtain ⟨u, name, hname, hs, -⟩ := groupName_recognised h
      refine ⟨'k' :: '<' :: (u ++ ['>']), ?_, .leaf (.namedReference hname)⟩
      simpa using hs
    · rw [atomEscape_character hd hk] at h ⊢
      rcases characterEscape_recognised h with ⟨e, he, hs⟩ | ⟨e, f, he, hf, hs⟩
      · exact ⟨c :: e, congrArg (c :: ·) hs, .leaf (.escape he hb hd hk)⟩
      · have hpair := LeadsAtom.pair (.escape he hb hd hk)
          (.escape hf (by decide) (by decide) (by decide))
        refine ⟨c :: (e ++ '\\' :: 'u' :: f), ?_, by simpa using hpair⟩
        simpa using hs

theorem opening_atom_recognised {s : List Char} {l : Lexeme Unit} (h : Opening.of s = .atom l)
    (hl : l.notices = []) : ∃ u, s = u ++ l.rest ∧ LeadsAtom u := by
  rcases Opening.eq_of_atom h with
    ⟨c, t, rfl, hc, rfl⟩ | ⟨t, rfl, rfl⟩ | ⟨t, rfl, hb, rfl⟩
  · refine ⟨[c], rfl, ?_⟩
    rcases hc with rfl | hc
    · exact .leaf .dot
    · exact .leaf (.plain hc)
  · obtain ⟨u, hu, ht⟩ := characterClass_recognised hl
    exact ⟨'[' :: (u ++ [']']), by simpa using ht, .leaf (.characterClass hu)⟩
  · cases t with
    | nil => cases hl
    | cons c t =>
        have hne : c ≠ 'b' ∧ c ≠ 'B' := by
          constructor
          · rintro rfl
            exact (hb t).1 rfl
          · rintro rfl
            exact (hb t).2 rfl
        obtain ⟨u, hs, hu⟩ := atomEscape_recognised hne hl
        exact ⟨'\\' :: u, congrArg ('\\' :: ·) hs, hu⟩

theorem closingParenthesis_recognised {s : List Char} (h : (closingParenthesis s).notices = []) :
    s = ')' :: (closingParenthesis s).rest :=
  eq_cons_of_expect (expect_value_of_notices h)

theorem groupOpening_recognised {s : List Char} (h : (groupOpening s).notices = []) :
    ∃ o : Opener, s = o.text ++ (groupOpening s).rest := by
  unfold groupOpening at h ⊢
  split at h
  · exact ⟨.withoutCapture, rfl⟩
  · obtain ⟨u, name, hname, ht, -⟩ := groupName_recognised h
    exact ⟨.named u name hname, by simpa [Opener.text] using ht⟩
  · exact ⟨.unmarked, rfl⟩

theorem lookaround_recognised {negative : Bool} {s : List Char}
    (hd : (disjunction s).notices = [] →
      ∃ d : Tree .disjunction, s = d.text ++ (disjunction s).rest)
    (h : (lookaround negative s).notices = []) :
    ∃ d : Tree .disjunction, s = d.text ++ ')' :: (lookaround negative s).rest := by
  rw [lookaround_eq] at h ⊢
  simp only [Reading.andThen_notices, Reading.ofSteps_notices, Reading.andThen_rest,
    Reading.ofSteps_rest, List.nil_append, List.append_nil, List.append_eq_nil_iff] at h ⊢
  obtain ⟨d, hs⟩ := hd h.1
  exact ⟨d, by rw [← closingParenthesis_recognised h.2, ← hs]⟩

theorem group_recognised {s : List Char}
    (hd : (disjunction (groupOpening s).rest).notices = [] → ∃ d : Tree .disjunction,
      (groupOpening s).rest = d.text ++ (disjunction (groupOpening s).rest).rest)
    (h : (group s).notices = []) :
    ∃ (o : Opener) (d : Tree .disjunction), s = o.text ++ (d.text ++ ')' :: (group s).rest) := by
  rw [group_eq] at h ⊢
  simp only [Reading.andThen_notices, Reading.ofSteps_notices, Reading.ofLexeme_notices,
    Reading.andThen_rest, Reading.ofSteps_rest, List.nil_append, List.append_nil,
    List.append_eq_nil_iff] at h ⊢
  obtain ⟨hopening, hcontents, hclosing⟩ := h
  obtain ⟨o, ho⟩ := groupOpening_recognised hopening
  obtain ⟨d, hs⟩ := hd hcontents
  exact ⟨o, d, by rw [← closingParenthesis_recognised hclosing, ← hs, ← ho]⟩

theorem misplaced?_notices {s : List Char} {l : Lexeme Unit} (h : misplaced? s = some l) :
    l.notices ≠ [] := by
  unfold misplaced? at h
  split at h
  · cases h
  · split at h
    · cases h
      exact List.cons_ne_nil _ _
    · split at h
      · cases h
        exact List.cons_ne_nil _ _
      · cases h

/-- Readings without notices pass over the texts of trees. -/
theorem carried_recognised :
    Carried
      (fun s r => r.notices = [] → ∃ d : Tree .disjunction, s = d.text ++ r.rest)
      (fun s r => r.notices = [] → ∃ a : Tree .alternative, s = a.text ++ r.rest)
      (fun s r => r.notices = [] → ∃ u, s = u ++ r.rest ∧ Leads u) where
  bar s t ha ht hd h := by
    obtain ⟨halt, hrest⟩ := List.append_eq_nil_iff.mp h
    obtain ⟨a, hs⟩ := ha halt
    obtain ⟨d, htext⟩ := hd hrest
    rw [ht] at hs
    refine ⟨.bar a d, ?_⟩
    rw [Tree.text, List.append_assoc, List.cons_append]
    exact hs.trans (congrArg (fun u => a.text ++ '|' :: u) htext)
  last s ha _ h := by
    obtain ⟨a, hs⟩ := ha h
    exact ⟨.single a, hs⟩
  more s r _ ht ha h := by
    obtain ⟨hterm, halt⟩ := List.append_eq_nil_iff.mp h
    obtain ⟨u, hs, hu⟩ := ht hterm
    obtain ⟨a, hrest⟩ := ha halt
    obtain ⟨b, hb⟩ := hu a
    refine ⟨b, ?_⟩
    rw [hb, List.append_assoc]
    exact hs.trans (congrArg (u ++ ·) hrest)
  misplaced s l _ hl _ h := by
    exact absurd (List.append_eq_nil_iff.mp h).1 (misplaced?_notices hl)
  stop s _ _ _ := ⟨.nil, rfl⟩
  anchor s t h _ := by
    obtain ⟨k, hs⟩ := Opening.eq_of_anchor h
    exact ⟨k.text, hs, .term (.anchor k)⟩
  atom s l ho h := by
    obtain ⟨hl, hq⟩ := List.append_eq_nil_iff.mp h
    obtain ⟨u, hs, hu⟩ := opening_atom_recognised ho hl
    obtain ⟨t, ht, hrest⟩ := quantifier_recognised hq
    refine ⟨u ++ t, ?_, hu t _ ht⟩
    rw [List.append_assoc]
    exact hs.trans (congrArg (u ++ ·) hrest)
  lookaround s negative t ho hd h := by
    obtain ⟨k, rfl, rfl⟩ := Opening.eq_of_lookaround ho
    obtain ⟨d, ht⟩ := lookaround_recognised hd h
    refine ⟨_, ?_, .term (.lookaround k d)⟩
    simpa [Tree.text] using ht
  group s t ho hd h := by
    obtain ⟨hgroup, hquant⟩ := List.append_eq_nil_iff.mp h
    obtain ⟨o, d, ht⟩ := group_recognised hd hgroup
    obtain ⟨u, hu, hrest⟩ := quantifier_recognised (List.append_eq_nil_iff.mp hquant).1
    refine ⟨_, ?_, .term (.group o d ⟨u, _, hu⟩)⟩
    rw [Opening.eq_of_group ho, Tree.text]
    simp only [List.cons_append, List.append_assoc]
    rw [hrest] at ht
    exact congrArg ('(' :: ·) ht

/-- A disjunction that is read without notices is the text of a tree. -/
theorem disjunction_recognised {s : List Char} (h : (disjunction s).notices = []) :
    ∃ d : Tree .disjunction, s = d.text ++ (disjunction s).rest :=
  carried_recognised.disjunction s h

end NamedCaptures.Grammar
