import NamedCaptures.Analysis
import NamedCaptures.Proofs.Readers.Opening
import NamedCaptures.Proofs.Readers.Induction

/-!
# Notices in the order of the text

A reader notes only places between the beginning of the text that it is given and what it leaves,
and it notes them from front to back. `InOrder` says so of one reading. Readings in a row keep it
(`InOrder.append`), so it is shown reader by reader, and then carried along by the equations of the
readers that call each other. The main statement is `read_inOrder`.

## Implementation notes

Three kinds of problems are noted at a place behind which the reader has already gone on: a code
point that is too large, an escape that no name may hold, and a quantifier out of order. The order
holds for them because nothing else is noted on the way (`unicodeEscape_notices`).
-/

namespace NamedCaptures.Pattern

/-- Reading `s` and leaving `rest`, with these notices: all are for places on the way, from front
to back. -/
structure InOrder (s rest : List Char) (ns : List Notice) : Prop where
  suffix : rest <:+ s
  within : ∀ n ∈ ns, n.rest <:+ s ∧ rest <:+ n.rest
  ordered : ns.Pairwise fun n m => m.rest <:+ n.rest

namespace InOrder

variable {s t u : List Char} {ns ms : List Notice}

theorem nil (h : t <:+ s) : InOrder s t [] where
  suffix := h
  within := by rintro n ⟨⟩
  ordered := .nil

theorem singleton {kind : Problem.Kind} (hs : u <:+ s) (ht : t <:+ u) :
    InOrder s t [⟨kind, u⟩] where
  suffix := ht.trans hs
  within n hn := by
    rw [List.mem_singleton.mp hn]
    exact ⟨hs, ht⟩
  ordered := List.pairwise_singleton _ _

/-- Two readings, one behind the other. -/
theorem append (h : InOrder s t ns) (h' : InOrder t u ms) : InOrder s u (ns ++ ms) where
  suffix := h'.suffix.trans h.suffix
  within n hn := by
    rcases List.mem_append.mp hn with hn | hn
    · exact ⟨(h.within n hn).1, h'.suffix.trans (h.within n hn).2⟩
    · exact ⟨(h'.within n hn).1.trans h.suffix, (h'.within n hn).2⟩
  ordered := by
    refine List.pairwise_append.mpr ⟨h.ordered, h'.ordered, ?_⟩
    intro n hn m hm
    exact (h'.within m hm).1.trans (h.within n hn).2

theorem cons {kind : Problem.Kind} (hs : u <:+ s) (h : InOrder u t ns) :
    InOrder s t (⟨kind, u⟩ :: ns) :=
  (singleton hs List.suffix_rfl).append h

/-- Behind some text, the same reading. -/
theorem behind (h : InOrder s t ns) (hs : s <:+ u) : InOrder u t ns :=
  (nil hs).append h

/-- Leaving still less, without a notice. -/
theorem leaving (h : InOrder s t ns) (ht : u <:+ t) : InOrder s u ns := by
  have happend := h.append (nil ht)
  rwa [List.append_nil] at happend

end InOrder

section Tokens

variable (s : List Char)

theorem inOrder_expect (c : Char) (missing : Problem.Kind) :
    InOrder s (Lexeme.expect c missing s).rest (Lexeme.expect c missing s).notices := by
  rcases Lexeme.expect_cases c missing s with ⟨t, rfl, hread⟩ | ⟨-, hread⟩
  · rw [hread]
    exact .nil (List.suffix_cons _ _)
  · rw [hread]
    exact .singleton List.suffix_rfl List.suffix_rfl

/-- A character that is there is not noted as missing. -/
theorem expect_notices {s : List Char} {c : Char} {missing : Problem.Kind}
    (h : (Lexeme.expect c missing s).value = true) : (Lexeme.expect c missing s).notices = [] := by
  rcases Lexeme.expect_cases c missing s with ⟨t, -, hread⟩ | ⟨-, hread⟩
  · rw [hread]
  · rw [hread] at h
    cases h

theorem inOrder_bracedCodePoint :
    InOrder s (bracedCodePoint s).rest (bracedCodePoint s).notices := by
  have hclose := (inOrder_expect (s.dropWhile Numeral.isHexDigit) '}' .unclosedCodePoint).behind
    (List.dropWhile_suffix _)
  unfold bracedCodePoint
  dsimp only
  split
  · exact .singleton List.suffix_rfl (Lexeme.skipOptional_suffix _ s)
  · split
    · exact hclose
    · exact .cons List.suffix_rfl hclose

/-- Without four digits nothing is read, and with them nothing is noted. -/
theorem unbracedCodePoint_cases :
    unbracedCodePoint s = ⟨none, s, [⟨.badUnicodeEscape, s⟩]⟩ ∨
      (unbracedCodePoint s).notices = [] := by
  unfold unbracedCodePoint
  split
  · exact Or.inl rfl
  · split
    · split <;> exact Or.inr rfl
    · exact Or.inr rfl

theorem inOrder_unbracedCodePoint :
    InOrder s (unbracedCodePoint s).rest (unbracedCodePoint s).notices := by
  rcases unbracedCodePoint_cases s with hread | hnone
  · rw [hread]
    exact .singleton List.suffix_rfl List.suffix_rfl
  · rw [hnone]
    exact .nil (unbracedCodePoint_rest s)

theorem inOrder_unicodeEscape : InOrder s (unicodeEscape s).rest (unicodeEscape s).notices := by
  unfold unicodeEscape
  split
  · exact (inOrder_bracedCodePoint _).behind (List.suffix_cons _ _)
  · exact inOrder_unbracedCodePoint s

theorem bracedCodePoint_notices {n : Nat} (h : (bracedCodePoint s).value = some n) :
    (bracedCodePoint s).notices = [] := by
  unfold bracedCodePoint at h ⊢
  dsimp only at h ⊢
  split at h
  · cases h
  · split at h
    · next hdigits hle =>
        rw [if_neg hdigits, if_pos hle]
        dsimp only at h ⊢
        split at h
        · next hclosed => exact expect_notices hclosed
        · cases h
    · cases h

/-- An escape that has a value was read without a notice. -/
theorem unicodeEscape_notices {n : Nat} (h : (unicodeEscape s).value = some n) :
    (unicodeEscape s).notices = [] := by
  unfold unicodeEscape at h ⊢
  split at h
  · exact bracedCodePoint_notices _ h
  · rcases unbracedCodePoint_cases s with hread | hnone
    · rw [hread] at h
      cases h
    · exact hnone

theorem inOrder_propertyExpression :
    InOrder s (propertyExpression s).rest (propertyExpression s).notices := by
  unfold propertyExpression
  split
  · next t =>
      have hclose := inOrder_expect (t.dropWhile isPropertyChar) '}' .unclosedProperty
      exact hclose.behind ((List.dropWhile_suffix _).trans (List.suffix_cons _ _))
  · exact .singleton List.suffix_rfl List.suffix_rfl

theorem inOrder_controlLetter : InOrder s (controlLetter s).rest (controlLetter s).notices := by
  unfold controlLetter
  split
  · exact .singleton List.suffix_rfl List.suffix_rfl
  · split
    · exact .nil (List.suffix_cons _ _)
    · exact .singleton List.suffix_rfl List.suffix_rfl

theorem inOrder_hexEscape : InOrder ('x' :: s) (hexEscape s).rest (hexEscape s).notices := by
  unfold hexEscape
  split
  · next a b t =>
      split
      · exact .nil ⟨['x', a, b], rfl⟩
      · exact .singleton List.suffix_rfl List.suffix_rfl
  · exact .singleton List.suffix_rfl List.suffix_rfl

theorem inOrder_characterEscape (c : Char) :
    InOrder (c :: s) (characterEscape c s).rest (characterEscape c s).notices := by
  unfold characterEscape
  split
  · exact (inOrder_propertyExpression s).behind (List.suffix_cons _ _)
  · exact (inOrder_propertyExpression s).behind (List.suffix_cons _ _)
  · exact (inOrder_controlLetter s).behind (List.suffix_cons _ _)
  · exact inOrder_hexEscape s
  · exact (inOrder_unicodeEscape s).behind (List.suffix_cons _ _)
  · exact .nil (List.suffix_cons _ _)

theorem inOrder_classEscape : InOrder s (classEscape s).rest (classEscape s).notices := by
  unfold classEscape
  split
  · exact .singleton List.suffix_rfl List.suffix_rfl
  · exact inOrder_characterEscape _ _

theorem inOrder_classMembers : InOrder s (classMembers s).rest (classMembers s).notices := by
  fun_induction classMembers s with
  | case1 => exact .singleton List.suffix_rfl List.suffix_rfl
  | case2 s => exact .nil (List.suffix_cons _ _)
  | case3 s escape members _ ih =>
      exact ((inOrder_classEscape s).append ih).behind (List.suffix_cons _ _)
  | case4 c s _ _ ih => exact ih.behind (List.suffix_cons _ _)

theorem inOrder_characterClass :
    InOrder s (characterClass s).rest (characterClass s).notices :=
  (inOrder_classMembers _).behind (Lexeme.skipOptional_suffix _ s)

theorem inOrder_nameChar (accept : Char → Bool) :
    InOrder s (nameChar accept s).rest (nameChar accept s).notices := by
  unfold nameChar
  split
  · next t =>
      have ht : t <:+ '\\' :: 'u' :: t := (List.suffix_cons _ _).trans (List.suffix_cons _ _)
      have hescape := (inOrder_unicodeEscape t).behind ht
      dsimp only
      split
      · exact hescape
      · next n hn =>
          split
          · exact hescape
          · rw [unicodeEscape_notices t hn]
            exact .singleton List.suffix_rfl hescape.suffix
  · split
    · exact .nil (List.suffix_cons _ _)
    · exact .nil List.suffix_rfl
  · exact .nil List.suffix_rfl

theorem inOrder_nameTail : InOrder s (nameTail s).rest (nameTail s).notices := by
  fun_induction nameTail s with
  | case1 s first habsent => exact inOrder_nameChar s _
  | case2 s first hpresent _ tail ih => exact (inOrder_nameChar s _).append ih

theorem inOrder_nameToEnd : InOrder s (nameToEnd s).rest (nameToEnd s).notices := by
  have hfirst := inOrder_nameChar s Identifier.isStart
  unfold nameToEnd
  dsimp only
  split
  · exact hfirst.append (.singleton List.suffix_rfl List.suffix_rfl)
  · exact (hfirst.append (inOrder_nameTail _)).append (inOrder_expect _ '>' .unclosedGroupName)

theorem inOrder_groupName : InOrder s (groupName s).rest (groupName s).notices := by
  unfold groupName
  split
  · exact (inOrder_nameToEnd _).behind (List.suffix_cons _ _)
  · exact .singleton List.suffix_rfl List.suffix_rfl

theorem inOrder_groupOpening : InOrder s (groupOpening s).rest (groupOpening s).notices := by
  unfold groupOpening
  split
  · exact .nil ((List.suffix_cons _ _).trans (List.suffix_cons _ _))
  · exact (inOrder_groupName _).behind (List.suffix_cons _ _)
  · exact .nil List.suffix_rfl

theorem inOrder_atomEscape : InOrder s (atomEscape s).rest (atomEscape s).notices := by
  unfold atomEscape
  split
  · exact .singleton List.suffix_rfl List.suffix_rfl
  · split
    · exact .nil ((List.dropWhile_suffix _).trans (List.suffix_cons _ _))
    · split
      · exact (inOrder_groupName _).behind (List.suffix_cons _ _)
      · exact inOrder_characterEscape _ _

/-- A counted quantifier out of order is noted at the brace that begins it. -/
theorem inOrder_countedQuantifier :
    InOrder ('{' :: s) (countedQuantifier s).rest (countedQuantifier s).notices := by
  have hrest := (countedQuantifier_rest s).trans (List.suffix_cons '{' s)
  unfold countedQuantifier at hrest ⊢
  dsimp only at hrest ⊢
  split
  · next hempty =>
      rw [if_pos hempty] at hrest
      refine .singleton (List.suffix_cons _ _) ?_
      exact (Lexeme.skipOptional_suffix _ _).trans (List.dropWhile_suffix _)
  · next hdigits =>
      rw [if_neg hdigits] at hrest
      split
      · next hclosed =>
          rw [if_pos hclosed] at hrest
          dsimp only at hrest ⊢
          split
          · exact .singleton List.suffix_rfl hrest
          · exact .nil hrest
      · have hgreatest := (greatestCount_rest (Quantifier.count (s.takeWhile Char.isDigit))
          (s.dropWhile Char.isDigit)).trans (List.dropWhile_suffix _)
        exact (inOrder_expect _ '}' .unclosedQuantifier).behind
          (hgreatest.trans (List.suffix_cons _ _))

theorem inOrder_bareQuantifier :
    InOrder s (bareQuantifier s).rest (bareQuantifier s).notices := by
  unfold bareQuantifier
  split
  · exact .nil (List.suffix_cons _ _)
  · exact .nil (List.suffix_cons _ _)
  · exact .nil (List.suffix_cons _ _)
  · exact inOrder_countedQuantifier _
  · exact .nil List.suffix_rfl

theorem inOrder_quantifier : InOrder s (quantifier s).rest (quantifier s).notices := by
  have hbare := inOrder_bareQuantifier s
  unfold quantifier
  dsimp only
  split
  · exact hbare.leaving (Lexeme.skipOptional_suffix _ _)
  · exact hbare

end Tokens

theorem inOrder_atom {s : List Char} {l : Lexeme Unit} (h : Opening.of s = .atom l) :
    InOrder s l.rest l.notices := by
  rcases Opening.eq_of_atom h with ⟨c, t, rfl, -, rfl⟩ | ⟨t, rfl, rfl⟩ | ⟨t, rfl, -, rfl⟩
  · exact .nil (List.suffix_cons _ _)
  · exact (inOrder_characterClass t).behind (List.suffix_cons _ _)
  · exact (inOrder_atomEscape t).behind (List.suffix_cons _ _)

theorem inOrder_misplaced {s : List Char} {l : Lexeme Unit} (h : misplaced? s = some l) :
    InOrder s l.rest l.notices := by
  have hrest := (misplaced?_rest h).1
  unfold misplaced? at h
  split at h
  · cases h
  · split at h
    · cases h
      exact .singleton List.suffix_rfl hrest
    · split at h
      · cases h
        exact .cons List.suffix_rfl (inOrder_quantifier _)
      · cases h

theorem inOrder_closingParenthesis (s : List Char) :
    InOrder s (closingParenthesis s).rest (closingParenthesis s).notices :=
  inOrder_expect s ')' .unclosedGroup

theorem inOrder_lookaround {negative : Bool} {s : List Char}
    (h : InOrder s (disjunction s).rest (disjunction s).notices) :
    InOrder s (lookaround negative s).rest (lookaround negative s).notices := by
  rw [lookaround_eq]
  simpa using h.append (inOrder_closingParenthesis (disjunction s).rest)

theorem inOrder_group {s : List Char}
    (h : InOrder (groupOpening s).rest (disjunction (groupOpening s).rest).rest
      (disjunction (groupOpening s).rest).notices) :
    InOrder s (group s).rest (group s).notices := by
  rw [group_eq]
  simpa using (inOrder_groupOpening s).append (h.append (inOrder_closingParenthesis _))

/-- The order is carried along by all the readers. -/
theorem carried_inOrder :
    Carried
      (fun s r => InOrder s r.rest r.notices)
      (fun s r => InOrder s r.rest r.notices)
      (fun s r => InOrder s r.rest r.notices) where
  bar s t ha ht hd := by
    rw [ht] at ha
    exact ha.append (hd.behind (List.suffix_cons _ _))
  last s ha _ := ha
  more s r _ ht ha := ht.append ha
  misplaced s l _ hl ha := (inOrder_misplaced hl).append ha
  stop s _ _ := .nil List.suffix_rfl
  anchor s t h := .nil (Opening.of_rest? (congrArg Opening.rest? h)).1
  atom s l h := (inOrder_atom h).append (inOrder_quantifier l.rest)
  lookaround s negative t h hd :=
    (inOrder_lookaround hd).behind (Opening.of_rest? (congrArg Opening.rest? h)).1
  group s t h hd := by
    have hgroup := (inOrder_group hd).behind (Opening.of_rest? (congrArg Opening.rest? h)).1
    simpa using hgroup.append (inOrder_quantifier (group t).rest)

theorem disjunction_inOrder (s : List Char) :
    InOrder s (disjunction s).rest (disjunction s).notices :=
  carried_inOrder.disjunction s

/-- Reading a whole pattern notes places of the pattern, from front to back. -/
theorem read_inOrder (s : List Char) : InOrder s [] (read s).notices := by
  fun_induction read s with
  | case1 s contents h =>
      have hcontents := disjunction_inOrder s
      rwa [h] at hcontents
  | case2 s contents c t h _ ih =>
      have hcontents := disjunction_inOrder s
      rw [h] at hcontents
      exact hcontents.append (.cons List.suffix_rfl (ih.behind (List.suffix_cons _ _)))

end NamedCaptures.Pattern
