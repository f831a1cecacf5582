import NamedCaptures.Pattern.Disjunction

/-!
# Induction over the readers

What holds of all readings of disjunctions, alternatives and terms is proved along the equations of
the readers: one case for each way in which a reading is put together. `Carried` lists the cases,
and its consequences `Carried.disjunction`, `Carried.alternative` and `Carried.term` say that the
properties hold of all that the readers return, for every text.
-/

namespace NamedCaptures.Pattern

/-- Three properties of a text and a reading of it that all equations of the readers carry along:
one of disjunctions, one of alternatives and one of terms. -/
structure Carried (D A T : List Char → Reading → Prop) : Prop where
  bar : ∀ s t, A s (alternative s) → (alternative s).rest = '|' :: t → D t (disjunction t) →
    D s ((alternative s).andThen ((Reading.ofSteps [.bar] t).andThen (disjunction t)))
  last : ∀ s, A s (alternative s) → (∀ t, (alternative s).rest ≠ '|' :: t) → D s (alternative s)
  more : ∀ s r, term? s = some r → T s r → A r.rest (alternative r.rest) →
    A s (r.andThen (alternative r.rest))
  misplaced : ∀ s l, term? s = none → misplaced? s = some l → A l.rest (alternative l.rest) →
    A s ((Reading.ofLexeme l).andThen (alternative l.rest))
  stop : ∀ s, term? s = none → misplaced? s = none → A s (Reading.ofSteps [] s)
  anchor : ∀ s t, Opening.of s = .anchor t → T s (Reading.ofSteps [] t)
  atom : ∀ s l, Opening.of s = .atom l →
    T s ((Reading.ofLexeme l).andThen (Reading.ofLexeme (quantifier l.rest)))
  lookaround : ∀ s negative t, Opening.of s = .lookaround negative t → D t (disjunction t) →
    T s (lookaround negative t)
  group : ∀ s t, Opening.of s = .group t →
    D (groupOpening t).rest (disjunction (groupOpening t).rest) →
    T s ((group t).andThen ((Reading.ofLexeme (quantifier (group t).rest)).andThen
      (Reading.ofSteps (quantifiedSteps (quantifier (group t).rest).value)
        (quantifier (group t).rest).rest)))

namespace Carried

variable {D A T : List Char → Reading → Prop}

private theorem term_step (h : Carried D A T) {s : List Char}
    (hd : ∀ t, t.length < s.length → D t (disjunction t)) {r : Reading} (hr : term? s = some r) :
    T s r := by
  rw [term?_eq] at hr
  cases ho : Opening.of s with
  | none =>
      rw [ho] at hr
      cases hr
  | anchor t =>
      rw [ho] at hr
      cases hr
      exact h.anchor s t ho
  | atom l =>
      rw [ho] at hr
      cases hr
      exact h.atom s l ho
  | lookaround negative t =>
      have ht := Opening.of_rest? (congrArg Opening.rest? ho)
      rw [ho] at hr
      cases hr
      exact h.lookaround s negative t ho (hd t ht.2)
  | group t =>
      have ht := Opening.of_rest? (congrArg Opening.rest? ho)
      rw [ho] at hr
      cases hr
      exact h.group s t ho (hd _ (Nat.lt_of_le_of_lt (groupOpening_rest t).length_le ht.2))

private theorem alternative_step (h : Carried D A T) {s : List Char}
    (hd : ∀ t, t.length < s.length → D t (disjunction t))
    (ha : ∀ t, t.length < s.length → A t (alternative t)) : A s (alternative s) := by
  rw [alternative_eq]
  cases hterm : term? s with
  | some r => exact h.more s r hterm (h.term_step hd hterm) (ha _ (term?_rest hterm).2)
  | none =>
      cases hmis : misplaced? s with
      | some l => exact h.misplaced s l hterm hmis (ha _ (misplaced?_rest hmis).2)
      | none => exact h.stop s hterm hmis

private theorem disjunction_step (h : Carried D A T) {s : List Char}
    (hd : ∀ t, t.length < s.length → D t (disjunction t)) (ha : A s (alternative s)) :
    D s (disjunction s) := by
  rw [disjunction_eq]
  split
  · next t ht =>
      have hsuffix : '|' :: t <:+ s := ht ▸ alternative_rest s
      exact h.bar s t ha ht (hd t hsuffix.length_le)
  · next hne => exact h.last s ha hne

private theorem both (h : Carried D A T) (s : List Char) :
    D s (disjunction s) ∧ A s (alternative s) := by
  induction hn : s.length using Nat.strongRecOn generalizing s with
  | ind n ih =>
      subst hn
      have hd (t : List Char) (ht : t.length < s.length) := (ih t.length ht t rfl).1
      have ha := h.alternative_step hd fun t ht => (ih t.length ht t rfl).2
      exact ⟨h.disjunction_step hd ha, ha⟩

theorem disjunction (h : Carried D A T) (s : List Char) : D s (disjunction s) :=
  (h.both s).1

theorem alternative (h : Carried D A T) (s : List Char) : A s (alternative s) :=
  (h.both s).2

theorem term (h : Carried D A T) {s : List Char} {r : Reading} (hr : term? s = some r) : T s r :=
  h.term_step (fun t _ => h.disjunction t) hr

end Carried

end NamedCaptures.Pattern
