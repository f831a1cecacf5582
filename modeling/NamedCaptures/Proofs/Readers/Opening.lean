import NamedCaptures.Pattern.Opening
import NamedCaptures.Proofs.Grammar.Tree

/-!
# How terms begin, inverted

What the text of a term looks like when its opening is known: one statement for each opening. For
anchors, and where no term begins, the converse is stated beside it.
-/

namespace NamedCaptures.Pattern

open Grammar

theorem opening_of_anchor (k : Anchor) (u : List Char) : Opening.of (k.text ++ u) = .anchor u := by
  cases k <;> rfl

theorem opening_of_none {c : Char} (h : c ∈ ['*', '+', '?', ')', ']', '{', '}', '|'])
    (u : List Char) : Opening.of (c :: u) = .none := by
  simp only [List.mem_cons, List.not_mem_nil, or_false] at h
  rcases h with rfl | rfl | rfl | rfl | rfl | rfl | rfl | rfl <;> rfl

theorem Opening.eq_of_anchor {s t : List Char} (h : Opening.of s = .anchor t) :
    ∃ k : Anchor, s = k.text ++ t := by
  unfold Opening.of at h
  split at h
  · cases h; exact ⟨.start, rfl⟩
  · cases h; exact ⟨.finish, rfl⟩
  · cases h; exact ⟨.boundary, rfl⟩
  · cases h; exact ⟨.noBoundary, rfl⟩
  all_goals try cases h
  split at h <;> cases h

theorem Opening.eq_of_lookaround {s t : List Char} {negative : Bool}
    (h : Opening.of s = .lookaround negative t) :
    ∃ k : Lookaround, k.negative = negative ∧ s = '(' :: (k.text ++ t) := by
  unfold Opening.of at h
  split at h
  case h_5 => cases h; exact ⟨.ahead, rfl, rfl⟩
  case h_6 => cases h; exact ⟨.notAhead, rfl, rfl⟩
  case h_7 => cases h; exact ⟨.behind, rfl, rfl⟩
  case h_8 => cases h; exact ⟨.notBehind, rfl, rfl⟩
  all_goals try cases h
  split at h <;> cases h

theorem Opening.eq_of_group {s t : List Char} (h : Opening.of s = .group t) : s = '(' :: t := by
  unfold Opening.of at h
  split at h
  case h_9 => cases h; rfl
  all_goals try cases h
  split at h <;> cases h

/-- An atom is one character, a class, or an escape that is no word boundary. -/
theorem Opening.eq_of_atom {s : List Char} {l : Lexeme Unit} (h : Opening.of s = .atom l) :
    (∃ c t, s = c :: t ∧ (c = '.' ∨ c ∉ syntaxChars) ∧ l = ⟨(), t, []⟩) ∨
      (∃ t, s = '[' :: t ∧ l = characterClass t) ∨
      ∃ t, s = '\\' :: t ∧ (∀ u, t ≠ 'b' :: u ∧ t ≠ 'B' :: u) ∧ l = atomEscape t := by
  unfold Opening.of at h
  split at h
  case h_10 t hb hB =>
      cases h
      exact Or.inr (Or.inr ⟨t, rfl, fun u => ⟨hb u, hB u⟩, rfl⟩)
  case h_11 t =>
      cases h
      exact Or.inr (Or.inl ⟨t, rfl, rfl⟩)
  case h_12 t =>
      cases h
      exact Or.inl ⟨'.', t, rfl, Or.inl rfl, rfl⟩
  case h_13 c t _ _ _ _ _ _ _ _ _ _ _ _ =>
      split at h
      · cases h
      · next hc =>
          cases h
          refine Or.inl ⟨c, t, rfl, Or.inr fun hmem => hc ?_, rfl⟩
          simpa [isSyntaxChar, syntaxChars] using hmem
  all_goals cases h

/-- No term begins at the end, before a quantifier, or before what closes or separates. -/
theorem Opening.eq_of_none {s : List Char} (h : Opening.of s = .none) :
    s = [] ∨ ∃ c t, s = c :: t ∧ c ∈ ['*', '+', '?', ')', ']', '{', '}', '|'] := by
  unfold Opening.of at h
  split at h
  case h_13 c t h₁ h₂ _ _ _ _ _ _ h₃ h₄ h₅ h₆ =>
      split at h
      · next hc =>
          refine Or.inr ⟨c, t, rfl, ?_⟩
          simp only [isSyntaxChar, List.contains_iff_mem, List.mem_cons, List.not_mem_nil,
            or_false] at hc ⊢
          simp_all
      · cases h
  case h_14 => exact Or.inl rfl
  all_goals cases h

end NamedCaptures.Pattern
