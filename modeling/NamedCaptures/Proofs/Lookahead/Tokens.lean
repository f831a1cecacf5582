import NamedCaptures.Proofs.Lookahead.Stability
import NamedCaptures.Proofs.Text.Numerals

/-!
# Tokens with more text behind

The readers of tokens are stable under more text behind the text that they are given. A reader that
decides by a bounded number of characters reads the same as soon as there are so many. A run of
digits, of name characters or of class members may go on into the text behind: then the reader has
come to the end of the first text, where only what the run began with has been noted.
-/

namespace NamedCaptures.Lookahead

open Pattern

variable {s : List Char} (t : List Char)

theorem expect_append (h : s ≠ []) (c : Char) (missing : Problem.Kind) :
    Lexeme.expect c missing (s ++ t) = (Lexeme.expect c missing s).extend t := by
  cases s with
  | nil => exact absurd rfl h
  | cons d s =>
      rw [List.cons_append, Lexeme.expect, Lexeme.expect]
      split <;> rfl

theorem stable_expect (c : Char) (missing : Problem.Kind) (s : List Char) :
    StableLexeme t (Lexeme.expect c missing s) (Lexeme.expect c missing (s ++ t)) := by
  by_cases h : s = []
  · exact .of_short (s := s) (by simp [h, window]) (inOrder_expect s c missing) _
  · exact Or.inl (expect_append t h c missing)

theorem skipOptional_append (h : s ≠ []) (c : Char) :
    Lexeme.skipOptional c (s ++ t) = Lexeme.skipOptional c s ++ t := by
  cases s with
  | nil => exact absurd rfl h
  | cons d s =>
      rw [List.cons_append, Lexeme.skipOptional, Lexeme.skipOptional]
      split <;> rfl

section Runs

variable {accept : Char → Bool}

/-- What a run that ends inside the first text leaves. -/
theorem dropWhile_append (h : s.dropWhile accept ≠ []) :
    (s ++ t).dropWhile accept = s.dropWhile accept ++ t := by
  rw [List.dropWhile_append, if_neg (by simpa using h)]

/-- A run that ends inside the first text is the same with more text behind. -/
theorem takeWhile_append (h : s.dropWhile accept ≠ []) :
    (s ++ t).takeWhile accept = s.takeWhile accept := by
  have hlength : (s.takeWhile accept).length ≠ s.length := by
    intro heq
    have hsplit := congrArg List.length (List.takeWhile_append_dropWhile (p := accept) (l := s))
    rw [List.length_append, heq] at hsplit
    exact h (List.length_eq_zero_iff.mp (by omega))
  rw [List.takeWhile_append, if_neg hlength]

/-- A run that takes all of the first text may go on behind it. -/
theorem exists_takeWhile_append (h : s.dropWhile accept = []) :
    ∃ u, (s ++ t).takeWhile accept = s.takeWhile accept ++ u := by
  have hs := List.takeWhile_append_dropWhile (p := accept) (l := s)
  rw [h, List.append_nil] at hs
  exact ⟨t.takeWhile accept, by rw [List.takeWhile_append, if_pos (by rw [hs]), hs]⟩

/-- The character that has to come after a run. -/
theorem stable_expect_dropWhile (c : Char) (missing : Problem.Kind) (s : List Char) :
    StableLexeme t (Lexeme.expect c missing (s.dropWhile accept))
      (Lexeme.expect c missing ((s ++ t).dropWhile accept)) := by
  by_cases h : s.dropWhile accept = []
  · exact .of_short (s := s.dropWhile accept) (by simp [h, window]) (inOrder_expect _ c missing) _
  · rw [dropWhile_append t h]
    exact stable_expect t c missing _

end Runs

theorem fourHexDigits?_extend (h : 4 ≤ s.length) :
    fourHexDigits? (s ++ t) = (fourHexDigits? s).map fun q => (q.1, q.2 ++ t) := by
  match s, h with
  | a :: b :: c :: d :: s, _ =>
      simp only [List.cons_append, fourHexDigits?]
      split <;> rfl

theorem trailEscape?_extend (h : 6 ≤ s.length) :
    trailEscape? (s ++ t) = (trailEscape? s).map fun q => (q.1, q.2 ++ t) := by
  match s, h with
  | a :: b :: s, h =>
      have hfour := fourHexDigits?_extend t (s := s) (by simpa using h)
      by_cases hu : a = '\\' ∧ b = 'u'
      · obtain ⟨rfl, rfl⟩ := hu
        simp only [List.cons_append, trailEscape?, hfour]
        cases fourHexDigits? s with
        | none => rfl
        | some q => simp [Option.filter]
      · have hnone (v : List Char) : trailEscape? (a :: b :: v) = none := by
          unfold trailEscape?
          split
          · next heq =>
              obtain ⟨ha, hrest⟩ := List.cons.inj heq
              exact absurd ⟨ha, (List.cons.inj hrest).1⟩ hu
          · rfl
        simp [hnone]

theorem fourHexDigits?_length {u : List Char} {n : Nat} (h : fourHexDigits? s = some (n, u)) :
    s.length = u.length + 4 := by
  unfold fourHexDigits? at h
  split at h
  · split at h
    · cases h
      rfl
    · cases h
  · cases h

/-- Two escapes in a row take ten characters after the first letter `u`. -/
theorem unbracedCodePoint_append (h : 10 ≤ s.length) :
    unbracedCodePoint (s ++ t) = (unbracedCodePoint s).extend t := by
  have hfour := fourHexDigits?_extend t (s := s) (by omega)
  unfold unbracedCodePoint
  cases hlead : fourHexDigits? s with
  | none =>
      rw [hfour, hlead]
      rfl
  | some q =>
      obtain ⟨lead, u⟩ := q
      have htrail := trailEscape?_extend t (s := u) (by have := fourHexDigits?_length hlead; omega)
      rw [hfour, hlead]
      dsimp only [Option.map_some]
      rw [htrail]
      cases trailEscape? u <;> split <;> rfl

/-- A code point whose digits go on to the end of the text has no value, and that it is too large
is already known if it is. -/
theorem bracedCodePoint_late (hs : s ≠ []) (h : s.dropWhile Numeral.isHexDigit = []) :
    Late t (bracedCodePoint s).rest (bracedCodePoint s).notices
        (bracedCodePoint (s ++ t)).notices ∧
      (bracedCodePoint s).value = none := by
  obtain ⟨u, hu⟩ := exists_takeWhile_append t h
  have hdigits : s.takeWhile Numeral.isHexDigit ≠ [] := by
    intro hnil
    have hsplit := List.takeWhile_append_dropWhile (p := Numeral.isHexDigit) (l := s)
    rw [hnil, h] at hsplit
    exact hs hsplit.symm
  have hle := Numeral.value_le_append_right (by decide : 0 < 16) (s.takeWhile Numeral.isHexDigit) u
  unfold bracedCodePoint
  rw [h, hu]
  simp only [List.isEmpty_iff, List.append_eq_nil_iff, hdigits, false_and, if_false,
    Lexeme.expect]
  by_cases hlast : Numeral.value 16 (s.takeWhile Numeral.isHexDigit) ≤ CodePoint.last
  · rw [if_pos hlast]
    exact ⟨.of_end _, rfl⟩
  · rw [if_neg hlast, if_neg (by omega)]
    exact ⟨(Late.of_end _).prepend [⟨.codePointTooLarge, s⟩], rfl⟩

theorem bracedCodePoint_append (h : s.dropWhile Numeral.isHexDigit ≠ []) :
    bracedCodePoint (s ++ t) = (bracedCodePoint s).extend t := by
  have hs : s ≠ [] := by
    rintro rfl
    exact h rfl
  unfold bracedCodePoint
  rw [takeWhile_append t h, dropWhile_append t h, expect_append t h, skipOptional_append t hs]
  dsimp only
  split
  · rfl
  · split <;> rfl

/-- A Unicode escape that comes near the end of the text has no value. -/
theorem unicodeEscape_cases (h : 10 ≤ s.length) :
    unicodeEscape (s ++ t) = (unicodeEscape s).extend t ∨
      Late t (unicodeEscape s).rest (unicodeEscape s).notices (unicodeEscape (s ++ t)).notices ∧
        (unicodeEscape s).value = none := by
  by_cases hbrace : ∃ u, s = '{' :: u
  · obtain ⟨u, rfl⟩ := hbrace
    by_cases hrun : u.dropWhile Numeral.isHexDigit = []
    · refine Or.inr (bracedCodePoint_late t ?_ hrun)
      rintro rfl
      simp at h
    · exact Or.inl (bracedCodePoint_append t hrun)
  · have hplain {v : List Char} (hv : ∀ u, v ≠ '{' :: u) :
        unicodeEscape v = unbracedCodePoint v := by
      unfold unicodeEscape
      split
      · next u => exact absurd rfl (hv u)
      · rfl
    have hs : ∀ u, s ≠ '{' :: u := fun u hu => hbrace ⟨u, hu⟩
    have hst : ∀ u, s ++ t ≠ '{' :: u := by
      match s, h with
      | c :: v, _ =>
          intro u hu
          exact hs v (by rw [(List.cons.inj hu).1])
    rw [hplain hs, hplain hst]
    exact Or.inl (unbracedCodePoint_append t h)

theorem stable_unicodeEscape (s : List Char) :
    StableLexeme t (unicodeEscape s) (unicodeEscape (s ++ t)) := by
  by_cases h : 10 ≤ s.length
  · rcases unicodeEscape_cases t h with heq | hlate
    · exact Or.inl heq
    · exact Or.inr hlate.1
  · exact .of_short (by unfold window; omega) (inOrder_unicodeEscape s) _

theorem stable_propertyExpression (s : List Char) :
    StableLexeme t (propertyExpression s) (propertyExpression (s ++ t)) := by
  match s with
  | [] => exact .of_short (by decide) (inOrder_propertyExpression []) _
  | c :: s =>
      by_cases hc : c = '{'
      · rw [hc]
        exact (stable_expect_dropWhile t '}' .unclosedProperty s).discard
      · have hbad (v : List Char) : propertyExpression (c :: v) =
            ⟨(), c :: v, [⟨.propertyWithoutBrace, c :: v⟩]⟩ := by
          unfold propertyExpression
          split
          · next heq => exact absurd (List.cons.inj heq).1 hc
          · rfl
        rw [List.cons_append, hbad, hbad]
        exact Or.inl rfl

theorem stable_controlLetter (s : List Char) :
    StableLexeme t (controlLetter s) (controlLetter (s ++ t)) := by
  cases s with
  | nil => exact .of_short (by decide) (inOrder_controlLetter []) _
  | cons c s =>
      rw [List.cons_append, controlLetter, controlLetter]
      split <;> exact Or.inl rfl

theorem stable_hexEscape (s : List Char) :
    StableLexeme t (hexEscape s) (hexEscape (s ++ t)) := by
  match s with
  | [] => exact .of_short (by decide) (inOrder_hexEscape []) _
  | [c] => exact .of_short (by simp [window]) (inOrder_hexEscape [c]) _
  | a :: b :: s =>
      rw [List.cons_append, List.cons_append, hexEscape, hexEscape]
      split <;> exact Or.inl rfl

theorem stable_characterEscape (c : Char) (s : List Char) :
    StableLexeme t (characterEscape c s) (characterEscape c (s ++ t)) := by
  unfold characterEscape
  split
  · exact stable_propertyExpression t s
  · exact stable_propertyExpression t s
  · exact stable_controlLetter t s
  · exact stable_hexEscape t s
  · exact (stable_unicodeEscape t s).discard
  · exact Or.inl rfl

theorem stable_classEscape (s : List Char) :
    StableLexeme t (classEscape s) (classEscape (s ++ t)) := by
  cases s with
  | nil => exact .of_short (by decide) (inOrder_classEscape []) _
  | cons c s => exact stable_characterEscape t c s

theorem stable_classMembers (s : List Char) :
    StableLexeme t (classMembers s) (classMembers (s ++ t)) := by
  fun_induction classMembers s with
  | case1 => exact Or.inr (.of_end _)
  | case2 s =>
      rw [List.cons_append, classMembers, if_pos rfl]
      exact Or.inl rfl
  | case3 s escape members hclose ih =>
      rw [List.cons_append, classMembers, if_neg hclose, if_pos rfl]
      refine (stable_classEscape t s).andThen (fun _ _ => ()) (inOrder_classMembers _) ?_
      intro heq
      rw [heq]
      exact ih
  | case4 c s hclose hescape ih =>
      rw [List.cons_append, classMembers, if_neg hclose, if_neg hescape]
      exact ih

theorem stable_characterClass (s : List Char) :
    StableLexeme t (characterClass s) (characterClass (s ++ t)) := by
  by_cases hs : s = []
  · exact .of_short (by simp [hs, window]) (inOrder_characterClass s) _
  · unfold characterClass
    rw [skipOptional_append t hs]
    exact stable_classMembers t _

/-- What an escape in a name notes first is what the escape itself notes. -/
theorem exists_nameChar_notices (accept : Char → Bool) (s : List Char) :
    ∃ others, (nameChar accept ('\\' :: 'u' :: s)).notices =
      (unicodeEscape s).notices ++ others := by
  rw [nameChar]
  split
  · exact ⟨[], (List.append_nil _).symm⟩
  · split
    · exact ⟨[], (List.append_nil _).symm⟩
    · exact ⟨_, rfl⟩

theorem stable_nameChar_escape (accept : Char → Bool) (h : 10 ≤ s.length) :
    StableLexeme t (nameChar accept ('\\' :: 'u' :: s))
      (nameChar accept ('\\' :: 'u' :: (s ++ t))) := by
  rcases unicodeEscape_cases t h with heq | ⟨hlate, hnone⟩
  · refine Or.inl ?_
    simp only [nameChar, heq, Lexeme.extend]
    split
    · rfl
    · split <;> simp [Notice.extend]
  · obtain ⟨others, hothers⟩ := exists_nameChar_notices accept (s ++ t)
    refine Or.inr ?_
    rw [hothers]
    simp only [nameChar, hnone]
    exact hlate.others others

theorem stable_nameChar (accept : Char → Bool) (s : List Char) :
    StableLexeme t (nameChar accept s) (nameChar accept (s ++ t)) := by
  by_cases hshort : s.length < window
  · exact .of_short hshort (inOrder_nameChar s accept) _
  · match s, hshort with
    | [], hshort => exact absurd (by decide) hshort
    | [c], hshort => exact absurd (by simp [window]) hshort
    | c :: d :: u, hshort =>
        by_cases hu : c = '\\' ∧ d = 'u'
        · obtain ⟨rfl, rfl⟩ := hu
          refine stable_nameChar_escape t accept ?_
          simp only [List.length_cons, window] at hshort
          omega
        · have hliteral (v : List Char) : nameChar accept (c :: d :: v) =
              if accept c then ⟨.valid c, d :: v, []⟩ else ⟨.absent, c :: d :: v, []⟩ := by
            unfold nameChar
            split
            · next heq =>
                obtain ⟨hc, hrest⟩ := List.cons.inj heq
                exact absurd ⟨hc, (List.cons.inj hrest).1⟩ hu
            · next heq =>
                obtain ⟨rfl, rfl⟩ := List.cons.inj heq
                rfl
            · next heq => cases heq
          rw [List.cons_append, List.cons_append, hliteral, hliteral]
          split <;> exact Or.inl rfl

theorem exists_nameTail_notices (s : List Char) :
    ∃ others, (nameTail s).notices = (nameChar Identifier.isPart s).notices ++ others := by
  by_cases h : (nameChar Identifier.isPart s).value = .absent
  · exact ⟨[], by rw [nameTail_of_absent h, List.append_nil]⟩
  · exact ⟨_, by rw [nameTail_of_present h]⟩

theorem stable_nameTail (s : List Char) :
    StableLexeme t (nameTail s) (nameTail (s ++ t)) := by
  fun_induction nameTail s with
  | case1 s first habsent =>
      rcases stable_nameChar t Identifier.isPart s with heq | hlate
      · rw [nameTail_of_absent (by rw [heq]; exact habsent), heq]
        exact Or.inl rfl
      · obtain ⟨others, hothers⟩ := exists_nameTail_notices (s ++ t)
        rw [StableLexeme, hothers]
        exact Or.inr (hlate.others others)
  | case2 s first hpresent _ tail ih =>
      rcases stable_nameChar t Identifier.isPart s with heq | hlate
      · rw [nameTail_of_present (by rw [heq]; exact hpresent), heq]
        have hfirst : StableLexeme t first (first.extend t) := Or.inl rfl
        exact hfirst.andThen NameChar.cons (inOrder_nameTail _) fun _ => ih
      · obtain ⟨others, hothers⟩ := exists_nameTail_notices (s ++ t)
        rw [StableLexeme, hothers]
        exact Or.inr (hlate.append (inOrder_nameTail _) others)

/-- What a name notes first is what its first character notes. -/
theorem exists_nameToEnd_notices (s : List Char) :
    ∃ others, (nameToEnd s).notices = (nameChar Identifier.isStart s).notices ++ others ∧
      InOrder (nameChar Identifier.isStart s).rest (nameToEnd s).rest others := by
  unfold nameToEnd
  dsimp only
  split
  · exact ⟨_, rfl, .singleton List.suffix_rfl List.suffix_rfl⟩
  · exact ⟨_, List.append_assoc _ _ _,
      (inOrder_nameTail _).append (inOrder_expect _ '>' .unclosedGroupName)⟩

theorem stable_nameToEnd (s : List Char) :
    StableLexeme t (nameToEnd s) (nameToEnd (s ++ t)) := by
  rcases stable_nameChar t Identifier.isStart s with heq | hlate
  · unfold nameToEnd
    rw [heq]
    dsimp only [Lexeme.extend]
    split
    · refine Or.inl ?_
      simp [Lexeme.extend, Notice.extend]
    · have hfirst : StableLexeme t (nameChar Identifier.isStart s)
          ((nameChar Identifier.isStart s).extend t) := Or.inl rfl
      have hname := hfirst.andThen NameChar.cons (inOrder_nameTail _) fun _ => stable_nameTail t _
      refine hname.andThen (fun name closed => if closed then name else none)
        (inOrder_expect _ '>' .unclosedGroupName) ?_
      intro htail
      have hrest := congrArg Lexeme.rest htail
      dsimp only [Lexeme.extend] at hrest
      rw [hrest]
      exact stable_expect t '>' .unclosedGroupName _
  · obtain ⟨more, hmore, ho⟩ := exists_nameToEnd_notices s
    obtain ⟨others, hothers, -⟩ := exists_nameToEnd_notices (s ++ t)
    rw [StableLexeme, hmore, hothers]
    exact Or.inr (hlate.append ho others)

theorem stable_groupName (s : List Char) :
    StableLexeme t (groupName s) (groupName (s ++ t)) := by
  match s with
  | [] => exact .of_short (by decide) (inOrder_groupName []) _
  | c :: s =>
      by_cases hc : c = '<'
      · rw [hc]
        exact (stable_nameToEnd t s).map (·.map String.ofList)
      · have hbad (v : List Char) : groupName (c :: v) =
            ⟨none, c :: v, [⟨.groupNameWithoutOpening, c :: v⟩]⟩ := by
          unfold groupName
          split
          · next heq => exact absurd (List.cons.inj heq).1 hc
          · rfl
        rw [List.cons_append, hbad, hbad]
        exact Or.inl rfl

theorem stable_atomEscape (s : List Char) :
    StableLexeme t (atomEscape s) (atomEscape (s ++ t)) := by
  cases s with
  | nil => exact .of_short (by decide) (inOrder_atomEscape []) _
  | cons c s =>
      rw [List.cons_append, atomEscape, atomEscape]
      split
      · by_cases h : s.dropWhile Char.isDigit = []
        · rw [h]
          exact Or.inr (.of_eq nil_near [])
        · rw [dropWhile_append t h]
          exact Or.inl rfl
      · split
        · exact (stable_groupName t s).discard
        · exact stable_characterEscape t c s

theorem stable_groupOpening (s : List Char) :
    StableLexeme t (groupOpening s) (groupOpening (s ++ t)) := by
  match s with
  | [] => exact .of_short (by decide) (inOrder_groupOpening []) _
  | [c] => exact .of_short (by simp [window]) (inOrder_groupOpening [c]) _
  | c :: d :: s =>
      by_cases hc : c = '?'
      · rw [hc]
        by_cases hd : d = ':'
        · rw [hd]
          exact Or.inl rfl
        · have hname (v : List Char) : groupOpening ('?' :: d :: v) = groupName (d :: v) := by
            unfold groupOpening
            split
            · next heq => exact absurd (List.cons.inj (List.cons.inj heq).2).1 hd
            · next heq => rw [(List.cons.inj heq).2]
            · next hne => exact absurd rfl (hne _)
          rw [List.cons_append, List.cons_append, hname, hname]
          exact stable_groupName t (d :: s)
      · have hplain (v : List Char) : groupOpening (c :: v) = ⟨none, c :: v, []⟩ := by
          unfold groupOpening
          split
          · next heq => exact absurd (List.cons.inj heq).1 hc
          · next heq => exact absurd (List.cons.inj heq).1 hc
          · rfl
        rw [List.cons_append, hplain, hplain]
        exact Or.inl rfl

/-- The part after the first number: either it takes the rest of the text, or it ends in it. -/
theorem greatestCount_append (h : s ≠ []) (least : Nat) :
    (greatestCount least s).rest = [] ∨
      greatestCount least (s ++ t) = (greatestCount least s).extend t := by
  match s with
  | [] => exact absurd rfl h
  | c :: s =>
      by_cases hc : c = ','
      · subst hc
        by_cases hrun : s.dropWhile Char.isDigit = []
        · exact Or.inl hrun
        · refine Or.inr ?_
          simp only [List.cons_append, greatestCount, takeWhile_append t hrun,
            dropWhile_append t hrun]
          rfl
      · have hplain (v : List Char) : greatestCount least (c :: v) = ⟨least, c :: v, []⟩ := by
          unfold greatestCount
          split
          · next heq => exact absurd (List.cons.inj heq).1 hc
          · rfl
        rw [List.cons_append, hplain, hplain]
        exact Or.inr rfl

/-- A counted quantifier whose numbers take the rest of the text. -/
theorem countedQuantifier_of_open (hdigits : s.takeWhile Char.isDigit ≠ [])
    (h : (greatestCount (Quantifier.count (s.takeWhile Char.isDigit))
      (s.dropWhile Char.isDigit)).rest = []) :
    countedQuantifier s = ⟨none, [], [⟨.unclosedQuantifier, []⟩]⟩ := by
  have hempty : (s.takeWhile Char.isDigit).isEmpty = false := List.isEmpty_eq_false_iff.mpr hdigits
  simp only [countedQuantifier, hempty, h, Lexeme.expect, Bool.false_eq_true, if_false]

theorem stable_countedQuantifier_digits (hdigits : s.takeWhile Char.isDigit ≠ []) :
    StableLexeme t (countedQuantifier s) (countedQuantifier (s ++ t)) := by
  by_cases hopen : (greatestCount (Quantifier.count (s.takeWhile Char.isDigit))
      (s.dropWhile Char.isDigit)).rest = []
  · rw [countedQuantifier_of_open hdigits hopen]
    exact Or.inr (.of_end _)
  · have hrun : s.dropWhile Char.isDigit ≠ [] := by
      intro hnil
      rw [hnil] at hopen
      exact hopen rfl
    have hgreatest := (greatestCount_append t hrun _).resolve_left hopen
    have hempty : (s.takeWhile Char.isDigit).isEmpty = false :=
      List.isEmpty_eq_false_iff.mpr hdigits
    refine Or.inl ?_
    simp only [countedQuantifier, takeWhile_append t hrun, dropWhile_append t hrun, hempty,
      hgreatest, Lexeme.extend, expect_append t hopen, Bool.false_eq_true, if_false]
    split
    · split <;> rfl
    · rfl

theorem countedQuantifier_of_not_digit {c : Char} (hc : c.isDigit = false) (s : List Char) :
    countedQuantifier (c :: s) =
      ⟨none, Lexeme.skipOptional '}' ((c :: s).dropWhile fun d => d == ',' || d.isDigit),
        [⟨.quantifierWithoutDigits, c :: s⟩]⟩ := by
  have hnone : (c :: s).takeWhile Char.isDigit = [] :=
    List.takeWhile_cons_of_neg (by rw [hc]; exact Bool.false_ne_true)
  simp only [countedQuantifier, hnone, List.isEmpty_nil, if_true]

theorem stable_countedQuantifier (s : List Char) :
    StableLexeme t (countedQuantifier s) (countedQuantifier (s ++ t)) := by
  cases s with
  | nil => exact .of_short (s := ['{']) (by decide) (inOrder_countedQuantifier []) _
  | cons c s =>
      cases hc : c.isDigit with
      | true => exact stable_countedQuantifier_digits t (by simp [hc])
      | false =>
          rw [List.cons_append, countedQuantifier_of_not_digit hc,
            countedQuantifier_of_not_digit hc, ← List.cons_append]
          by_cases hrun : (c :: s).dropWhile (fun d => d == ',' || d.isDigit) = []
          · have hnear : (Lexeme.skipOptional '}' []).length < window := nil_near
            rw [hrun]
            exact Or.inr (.of_eq hnear [⟨.quantifierWithoutDigits, c :: s⟩])
          · rw [dropWhile_append t hrun, skipOptional_append t hrun]
            exact Or.inl rfl

theorem bareQuantifier_of_not_start {c : Char} (h : isQuantifierStart c = false) (s : List Char) :
    bareQuantifier (c :: s) = ⟨none, c :: s, []⟩ := by
  unfold bareQuantifier
  split
  all_goals first
    | rfl
    | (next heq => rw [(List.cons.inj heq).1] at h; cases h)

theorem stable_bareQuantifier (s : List Char) :
    StableLexeme t (bareQuantifier s) (bareQuantifier (s ++ t)) := by
  cases s with
  | nil => exact .of_short (by decide) (inOrder_bareQuantifier []) _
  | cons c s =>
      cases hc : isQuantifierStart c with
      | true =>
          simp only [isQuantifierStart, Bool.or_eq_true, beq_iff_eq] at hc
          rcases hc with ((rfl | rfl) | rfl) | rfl
          · exact Or.inl rfl
          · exact Or.inl rfl
          · exact Or.inl rfl
          · exact stable_countedQuantifier t s
      | false =>
          rw [List.cons_append, bareQuantifier_of_not_start hc, bareQuantifier_of_not_start hc]
          exact Or.inl rfl

theorem stable_quantifier (s : List Char) :
    StableLexeme t (quantifier s) (quantifier (s ++ t)) := by
  rcases stable_bareQuantifier t s with heq | hlate
  · unfold quantifier
    rw [heq]
    dsimp only [Lexeme.extend]
    split
    · by_cases hrest : (bareQuantifier s).rest = []
      · rw [hrest]
        exact Or.inr (.of_eq nil_near (bareQuantifier s).notices)
      · rw [skipOptional_append t hrest]
        exact Or.inl rfl
    · exact Or.inl rfl
  · have hnotices (v : List Char) : (quantifier v).notices = (bareQuantifier v).notices := by
      unfold quantifier
      dsimp only
      split <;> rfl
    have hrest : (quantifier s).rest <:+ (bareQuantifier s).rest := by
      unfold quantifier
      dsimp only
      split
      · exact Lexeme.skipOptional_suffix _ _
      · exact List.suffix_rfl
    rw [StableLexeme, hnotices, hnotices]
    have happend := hlate.append (.nil hrest) []
    rw [List.append_nil, List.append_nil] at happend
    exact Or.inr happend

end NamedCaptures.Lookahead
