import NamedCaptures.Proofs.Readers.Order

/-!
# How many problems there are

A character that is read pays for two notices. Most readers can come to note one more than is paid
for, because they note that something is missing and read nothing, and it is what was read before
them that pays for it: a backslash, an opening bracket or brace, or the parenthesis of a group.
`Paid` says how many notices of a reading are left to be paid for. Terms leave none, and neither
does what is skipped as misplaced. So the problems of a pattern are at most twice as many as its
characters (`length_problems_le`). For opening braces alone they are as many.
-/

namespace NamedCaptures.Pattern

/-- Reading `s` and leaving `rest`, with these notices: two are paid for by each character that is
read, and at most `debt` others are left. -/
def Paid (debt : Nat) (s rest : List Char) (ns : List Notice) : Prop :=
  ns.length + 2 * rest.length ≤ 2 * s.length + debt

namespace Paid

variable {debt debt' : Nat} {s t u : List Char} {ns ms : List Notice}

theorem nil (h : t <:+ s) : Paid debt s t [] := by
  have hlength := h.length_le
  rw [Paid, List.length_nil]
  omega

theorem singleton (h : t <:+ s) (n : Notice) : Paid 1 s t [n] := by
  have hlength := h.length_le
  rw [Paid, List.length_singleton]
  omega

/-- Two readings, one behind the other. -/
theorem append (h : Paid debt s t ns) (h' : Paid debt' t u ms) :
    Paid (debt + debt') s u (ns ++ ms) := by
  rw [Paid] at h h' ⊢
  rw [List.length_append]
  omega

/-- From a longer text. -/
theorem from_suffix (h : Paid debt s t ns) (hs : s <:+ u) : Paid debt u t ns := by
  have hnil : Paid 0 u s [] := nil hs
  have happend := hnil.append h
  rwa [Nat.zero_add] at happend

/-- From a text that has a character more, which pays for all that is left. -/
theorem from_longer (h : Paid debt s t ns) (hle : debt ≤ 2) (hs : s.length < u.length) :
    Paid debt' u t ns := by
  rw [Paid] at h ⊢
  omega

theorem behind (h : Paid debt s t ns) (hle : debt ≤ 2) (c : Char) : Paid debt' (c :: s) t ns :=
  h.from_longer hle (Nat.lt_succ_self _)

/-- Leaving still less, without a notice. -/
theorem leaving (h : Paid debt s t ns) (ht : u <:+ t) : Paid debt s u ns := by
  have hnil : Paid 0 t u [] := nil ht
  have happend := h.append hnil
  rwa [List.append_nil] at happend

end Paid

section Tokens

variable (s : List Char)

theorem paid_expect (c : Char) (missing : Problem.Kind) :
    Paid 1 s (Lexeme.expect c missing s).rest (Lexeme.expect c missing s).notices := by
  rcases Lexeme.expect_cases c missing s with ⟨t, rfl, hread⟩ | ⟨-, hread⟩
  · rw [hread]
    exact .nil (List.suffix_cons _ _)
  · rw [hread]
    exact .singleton List.suffix_rfl _

/-- Behind a run of characters that is not empty there is less text. -/
theorem length_dropWhile_lt {accept : Char → Bool} {s : List Char}
    (h : ¬ (s.takeWhile accept).isEmpty = true) : (s.dropWhile accept).length < s.length := by
  have hlength := congrArg List.length (List.takeWhile_append_dropWhile (p := accept) (l := s))
  have hpos : 0 < (s.takeWhile accept).length := by
    apply List.length_pos_iff.mpr
    intro hnil
    exact h (List.isEmpty_iff.mpr hnil)
  rw [List.length_append] at hlength
  omega

/-- A code point that is too large has digits, which pay for its notice. -/
theorem paid_bracedCodePoint :
    Paid 1 s (bracedCodePoint s).rest (bracedCodePoint s).notices := by
  have hclose := paid_expect (s.dropWhile Numeral.isHexDigit) '}' .unclosedCodePoint
  fun_cases bracedCodePoint s with
  | case1 digits hempty => exact .singleton (Lexeme.skipOptional_suffix _ s) _
  | case2 digits hdigits value closing hle => exact hclose.from_suffix (List.dropWhile_suffix _)
  | case3 digits hdigits value closing hlarge =>
      have hboth := (Paid.singleton List.suffix_rfl ⟨.codePointTooLarge, s⟩).append hclose
      exact hboth.from_longer (Nat.le_refl 2) (length_dropWhile_lt hdigits)

theorem paid_unicodeEscape : Paid 1 s (unicodeEscape s).rest (unicodeEscape s).notices := by
  fun_cases unicodeEscape s with
  | case1 s => exact (paid_bracedCodePoint s).from_suffix (List.suffix_cons _ _)
  | case2 s hbrace =>
      rcases unbracedCodePoint_cases s with hread | hnone
      · rw [hread]
        exact .singleton List.suffix_rfl _
      · rw [hnone]
        exact .nil (unbracedCodePoint_rest s)

theorem paid_propertyExpression :
    Paid 1 s (propertyExpression s).rest (propertyExpression s).notices := by
  fun_cases propertyExpression s with
  | case1 s =>
      have hclose := paid_expect (s.dropWhile isPropertyChar) '}' .unclosedProperty
      exact hclose.from_suffix ((List.dropWhile_suffix _).trans (List.suffix_cons _ _))
  | case2 s hbrace => exact .singleton List.suffix_rfl _

theorem paid_controlLetter : Paid 1 s (controlLetter s).rest (controlLetter s).notices := by
  fun_cases controlLetter s with
  | case1 => exact .singleton List.suffix_rfl _
  | case2 c s hletter => exact .nil (List.suffix_cons _ _)
  | case3 c s hletter => exact .singleton List.suffix_rfl _

theorem paid_hexEscape : Paid 1 ('x' :: s) (hexEscape s).rest (hexEscape s).notices := by
  fun_cases hexEscape s with
  | case1 a b s hdigits => exact .nil ⟨['x', a, b], rfl⟩
  | case2 a b s hdigits => exact .singleton List.suffix_rfl _
  | case3 s hshort => exact .singleton List.suffix_rfl _

theorem paid_characterEscape (c : Char) :
    Paid 1 (c :: s) (characterEscape c s).rest (characterEscape c s).notices := by
  fun_cases characterEscape c s with
  | case1 => exact (paid_propertyExpression s).from_suffix (List.suffix_cons _ _)
  | case2 => exact (paid_propertyExpression s).from_suffix (List.suffix_cons _ _)
  | case3 => exact (paid_controlLetter s).from_suffix (List.suffix_cons _ _)
  | case4 => exact paid_hexEscape s
  | case5 => exact (paid_unicodeEscape s).from_suffix (List.suffix_cons _ _)
  | case6 => exact .nil (List.suffix_cons _ _)

theorem paid_classEscape : Paid 1 s (classEscape s).rest (classEscape s).notices := by
  fun_cases classEscape s with
  | case1 => exact .singleton List.suffix_rfl _
  | case2 c s => exact paid_characterEscape s c

/-- The backslash of an escape pays for what is wrong with it. -/
theorem paid_classMembers : Paid 1 s (classMembers s).rest (classMembers s).notices := by
  fun_induction classMembers s with
  | case1 => exact .singleton List.suffix_rfl _
  | case2 s => exact .nil (List.suffix_cons _ _)
  | case3 s escape members _ ih =>
      exact ((paid_classEscape s).append ih).behind (Nat.le_refl 2) '\\'
  | case4 c s _ _ ih => exact ih.from_suffix (List.suffix_cons _ _)

theorem paid_characterClass : Paid 1 s (characterClass s).rest (characterClass s).notices :=
  (paid_classMembers _).from_suffix (Lexeme.skipOptional_suffix _ s)

/-- The two characters that begin an escape in a name pay for all that is wrong with it. -/
theorem paid_nameChar (accept : Char → Bool) :
    Paid 0 s (nameChar accept s).rest (nameChar accept s).notices := by
  have hlonger (t : List Char) : t.length < ('\\' :: 'u' :: t).length :=
    Nat.lt_add_of_pos_right Nat.two_pos
  fun_cases nameChar accept s with
  | case1 t escape hnone => exact (paid_unicodeEscape t).from_longer (Nat.le_succ 1) (hlonger t)
  | case2 t escape n hn c hc =>
      exact (paid_unicodeEscape t).from_longer (Nat.le_succ 1) (hlonger t)
  | case3 t escape n hn hbad =>
      have hboth := (paid_unicodeEscape t).append (.singleton List.suffix_rfl
        ⟨.badGroupNameEscape, '\\' :: 'u' :: t⟩)
      exact hboth.from_longer (Nat.le_refl 2) (hlonger t)
  | case4 c t _ hc => exact .nil (List.suffix_cons _ _)
  | case5 c t _ hc => exact .nil List.suffix_rfl
  | case6 => exact .nil List.suffix_rfl

theorem paid_nameTail : Paid 0 s (nameTail s).rest (nameTail s).notices := by
  fun_induction nameTail s with
  | case1 s first habsent => exact paid_nameChar s _
  | case2 s first hpresent _ tail ih => exact (paid_nameChar s _).append ih

theorem paid_nameToEnd : Paid 1 s (nameToEnd s).rest (nameToEnd s).notices := by
  have hfirst := paid_nameChar s Identifier.isStart
  fun_cases nameToEnd s with
  | case1 first habsent => exact hfirst.append (.singleton List.suffix_rfl _)
  | case2 first hpresent tail closing =>
      have hclose := paid_expect tail.rest '>' .unclosedGroupName
      exact (hfirst.append (paid_nameTail first.rest)).append hclose

theorem paid_groupName : Paid 1 s (groupName s).rest (groupName s).notices := by
  fun_cases groupName s with
  | case1 s name => exact (paid_nameToEnd s).from_suffix (List.suffix_cons _ _)
  | case2 s hopening => exact .singleton List.suffix_rfl _

/-- The question mark before a name pays for what is wrong with the name. -/
theorem paid_groupOpening : Paid 0 s (groupOpening s).rest (groupOpening s).notices := by
  fun_cases groupOpening s with
  | case1 s => exact .nil ((List.suffix_cons _ _).trans (List.suffix_cons _ _))
  | case2 s hcolon => exact (paid_groupName s).behind (Nat.le_succ 1) '?'
  | case3 s hcolon hmark => exact .nil List.suffix_rfl

theorem paid_atomEscape : Paid 1 s (atomEscape s).rest (atomEscape s).notices := by
  fun_cases atomEscape s with
  | case1 => exact .singleton List.suffix_rfl _
  | case2 c s hdigit => exact .nil ((List.dropWhile_suffix _).trans (List.suffix_cons _ _))
  | case3 s => exact (paid_groupName s).from_suffix (List.suffix_cons _ _)
  | case4 c s hdigit hk => exact paid_characterEscape s c

/-- At most one notice is made of a counted quantifier. -/
theorem paid_countedQuantifier :
    Paid 1 s (countedQuantifier s).rest (countedQuantifier s).notices := by
  have hgreatest (least : Nat) : (greatestCount least (s.dropWhile Char.isDigit)).rest <:+ s :=
    (greatestCount_rest least _).trans (List.dropWhile_suffix _)
  fun_cases countedQuantifier s with
  | case1 digits hempty =>
      exact .singleton ((Lexeme.skipOptional_suffix _ _).trans (List.dropWhile_suffix _)) _
  | case2 digits hdigits least greatest closing hclosed =>
      have hclosing := (Lexeme.expect_rest '}' .unclosedQuantifier greatest.rest).trans
        (hgreatest least)
      dsimp only
      split
      · exact .singleton hclosing _
      · exact .nil hclosing
  | case3 digits hdigits least greatest closing hopen =>
      exact (paid_expect greatest.rest '}' .unclosedQuantifier).from_suffix (hgreatest least)

/-- A quantifier can only have the one notice, which leaves one for what comes before it. -/
theorem paid_bareQuantifier_cons {c : Char} (h : isQuantifierStart c = true) :
    Paid 1 s (bareQuantifier (c :: s)).rest (bareQuantifier (c :: s)).notices := by
  simp only [isQuantifierStart, Bool.or_eq_true, beq_iff_eq] at h
  rcases h with ((rfl | rfl) | rfl) | rfl
  · exact .nil List.suffix_rfl
  · exact .nil List.suffix_rfl
  · exact .nil List.suffix_rfl
  · exact paid_countedQuantifier s

theorem paid_bareQuantifier : Paid 0 s (bareQuantifier s).rest (bareQuantifier s).notices := by
  fun_cases bareQuantifier s with
  | case1 s => exact .nil (List.suffix_cons _ _)
  | case2 s => exact .nil (List.suffix_cons _ _)
  | case3 s => exact .nil (List.suffix_cons _ _)
  | case4 s => exact (paid_countedQuantifier s).behind (Nat.le_succ 1) '{'
  | case5 s => exact .nil List.suffix_rfl

/-- A mark for laziness is read without a notice. -/
theorem paid_lazy {debt : Nat} {s t : List Char}
    (h : Paid debt t (bareQuantifier s).rest (bareQuantifier s).notices) :
    Paid debt t (quantifier s).rest (quantifier s).notices := by
  fun_cases quantifier s with
  | case1 bare hsome => exact h.leaving (Lexeme.skipOptional_suffix _ _)
  | case2 bare hnone => exact h

theorem paid_quantifier : Paid 0 s (quantifier s).rest (quantifier s).notices :=
  paid_lazy (paid_bareQuantifier s)

end Tokens

theorem paid_atom {s : List Char} {l : Lexeme Unit} (h : Opening.of s = .atom l) :
    Paid 0 s l.rest l.notices := by
  rcases Opening.eq_of_atom h with ⟨c, t, rfl, -, rfl⟩ | ⟨t, rfl, rfl⟩ | ⟨t, rfl, -, rfl⟩
  · exact .nil (List.suffix_cons _ _)
  · exact (paid_characterClass t).behind (Nat.le_succ 1) _
  · exact (paid_atomEscape t).behind (Nat.le_succ 1) _

theorem paid_misplaced {s : List Char} {l : Lexeme Unit} (h : misplaced? s = some l) :
    Paid 0 s l.rest l.notices := by
  revert h
  fun_cases misplaced? s with
  | case1 => rintro ⟨⟩
  | case2 c t hcloser =>
      rintro ⟨⟩
      exact (Paid.singleton List.suffix_rfl _).behind (Nat.le_succ 1) c
  | case3 c t hcloser hstart read =>
      rintro ⟨⟩
      have hnotice : Paid 1 t t [⟨.nothingToRepeat, c :: t⟩] := .singleton List.suffix_rfl _
      have hboth := hnotice.append (paid_lazy (paid_bareQuantifier_cons t hstart))
      exact hboth.behind (Nat.le_refl 2) c
  | case4 => rintro ⟨⟩

theorem paid_closingParenthesis (s : List Char) :
    Paid 1 s (closingParenthesis s).rest (closingParenthesis s).notices :=
  paid_expect s ')' .unclosedGroup

theorem paid_lookaround {negative : Bool} {s : List Char}
    (h : Paid 0 s (disjunction s).rest (disjunction s).notices) :
    Paid 1 s (lookaround negative s).rest (lookaround negative s).notices := by
  rw [lookaround_eq]
  simpa using h.append (paid_closingParenthesis (disjunction s).rest)

theorem paid_group {s : List Char}
    (h : Paid 0 (groupOpening s).rest (disjunction (groupOpening s).rest).rest
      (disjunction (groupOpening s).rest).notices) :
    Paid 1 s (group s).rest (group s).notices := by
  rw [group_eq]
  simpa using (paid_groupOpening s).append (h.append (paid_closingParenthesis _))

/-- The beginning of a group or lookaround pays for its end, if that is missing. -/
theorem carried_paid :
    Carried
      (fun s r => Paid 0 s r.rest r.notices)
      (fun s r => Paid 0 s r.rest r.notices)
      (fun s r => Paid 0 s r.rest r.notices) where
  bar s t ha ht hd := by
    rw [ht] at ha
    exact ha.append (hd.from_suffix (List.suffix_cons _ _))
  last s ha _ := ha
  more s r _ ht ha := ht.append ha
  misplaced s l _ hl ha := (paid_misplaced hl).append ha
  stop s _ _ := .nil List.suffix_rfl
  anchor s t h := .nil (Opening.of_rest? (congrArg Opening.rest? h)).1
  atom s l h := (paid_atom h).append (paid_quantifier l.rest)
  lookaround s negative t h hd :=
    (paid_lookaround hd).from_longer (Nat.le_succ 1)
      (Opening.of_rest? (congrArg Opening.rest? h)).2
  group s t h hd := by
    have hgroup : Paid 0 s (group t).rest (group t).notices :=
      (paid_group hd).from_longer (Nat.le_succ 1) (Opening.of_rest? (congrArg Opening.rest? h)).2
    simpa using hgroup.append (paid_quantifier (group t).rest)

/-- A closing parenthesis that is left over pays for its notice. -/
theorem paid_read (s : List Char) : Paid 0 s [] (read s).notices := by
  fun_induction read s with
  | case1 s contents h =>
      have hcontents := carried_paid.disjunction s
      rwa [h] at hcontents
  | case2 s contents c t h _ ih =>
      have hcontents := carried_paid.disjunction s
      rw [h] at hcontents
      have hstray : Paid 0 (c :: t) t (strayCloser c t).notices :=
        (Paid.singleton List.suffix_rfl _).behind (Nat.le_succ 1) c
      exact hcontents.append (hstray.append ih)

end NamedCaptures.Pattern

namespace NamedCaptures

/-- The problems of a pattern are at most twice as many as its characters. -/
theorem length_problems_le (pattern : String) :
    (analyze pattern).problems.length ≤ 2 * pattern.length := by
  have hpaid := Pattern.paid_read pattern.toList
  rw [Pattern.Paid, List.length_nil, Nat.mul_zero, Nat.add_zero, Nat.add_zero,
    String.length_toList] at hpaid
  rwa [problems_analyze, List.length_map]

end NamedCaptures
