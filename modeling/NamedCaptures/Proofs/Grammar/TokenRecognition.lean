import NamedCaptures.Proofs.Grammar.TokenReading

/-!
# Recognising tokens

What a reader of tokens has passed over when it notes nothing is a token of the grammar. An escape
for a lead surrogate that is read together with a trail escape is two tokens, outside names.
-/

namespace NamedCaptures.Grammar

open Pattern

theorem digits_takeWhile {accept : Char → Bool} {s : List Char}
    (h : (s.takeWhile accept).isEmpty = false) : Digits accept (s.takeWhile accept) :=
  ⟨List.isEmpty_eq_false_iff.mp h, List.all_eq_true.mp List.all_takeWhile⟩

/-- Without a notice, the expected character was there. -/
theorem expect_value_of_notices {c : Char} {missing : Problem.Kind} {s : List Char}
    (h : (Lexeme.expect c missing s).notices = []) :
    (Lexeme.expect c missing s).value = true := by
  rcases Lexeme.expect_cases c missing s with ⟨t, -, hread⟩ | ⟨-, hread⟩
  · rw [hread]
  · rw [hread] at h
    cases h

theorem eq_cons_of_expect {c : Char} {missing : Problem.Kind} {s : List Char}
    (h : (Lexeme.expect c missing s).value = true) :
    s = c :: (Lexeme.expect c missing s).rest := by
  rcases Lexeme.expect_cases c missing s with ⟨t, hs, hread⟩ | ⟨-, hread⟩
  · rw [hread]
    exact hs
  · rw [hread] at h
    cases h

theorem bracedCodePoint_recognised {s : List Char} (h : (bracedCodePoint s).notices = []) :
    ∃ ds, Digits Numeral.isHexDigit ds ∧ Numeral.number 16 ds ≤ CodePoint.last ∧
      s = ds ++ '}' :: (bracedCodePoint s).rest ∧
      (bracedCodePoint s).value = some (Numeral.number 16 ds) := by
  cases hempty : (s.takeWhile Numeral.isHexDigit).isEmpty with
  | true => simp [bracedCodePoint, hempty] at h
  | false =>
      have hdigits := digits_takeWhile hempty
      by_cases hle : Numeral.number 16 (s.takeWhile Numeral.isHexDigit) ≤ CodePoint.last
      · simp only [bracedCodePoint, hempty, Numeral.value_eq_number 16 hdigits.2,
          Bool.false_eq_true, if_false, if_pos hle] at h ⊢
        have hvalue := expect_value_of_notices h
        refine ⟨_, hdigits, hle, ?_, by rw [if_pos hvalue]⟩
        rw [← eq_cons_of_expect hvalue, List.takeWhile_append_dropWhile]
      · simp [bracedCodePoint, hempty, Numeral.value_eq_number 16 hdigits.2, hle] at h

theorem unbracedCodePoint_recognised {s : List Char} (h : (unbracedCodePoint s).notices = []) :
    ∃ ds, FourHexDigits ds ∧
      (s = ds ++ (unbracedCodePoint s).rest ∧
          (unbracedCodePoint s).value = some (Numeral.number 16 ds) ∨
        ∃ es, FourHexDigits es ∧
          CodePoint.isLeadSurrogate (Numeral.number 16 ds) = true ∧
          CodePoint.isTrailSurrogate (Numeral.number 16 es) = true ∧
          s = ds ++ '\\' :: 'u' :: (es ++ (unbracedCodePoint s).rest) ∧
          (unbracedCodePoint s).value =
            some (CodePoint.ofSurrogates (Numeral.number 16 ds) (Numeral.number 16 es))) := by
  cases hfour : fourHexDigits? s with
  | none => simp [unbracedCodePoint, hfour] at h
  | some q =>
      obtain ⟨lead, t⟩ := q
      obtain ⟨ds, hds, rfl, rfl⟩ := exists_of_fourHexDigits? hfour
      refine ⟨ds, hds, ?_⟩
      by_cases hlead : CodePoint.isLeadSurrogate (Numeral.number 16 ds) = true
      · cases htrail : trailEscape? t with
        | none => exact Or.inl (by simp [unbracedCodePoint, hfour, htrail])
        | some q =>
            obtain ⟨trail, u⟩ := q
            obtain ⟨es, hes, rfl, rfl, ht⟩ := exists_of_trailEscape? htrail
            refine Or.inr ⟨es, hes, hlead, ht, ?_⟩
            simp [unbracedCodePoint, hfour, htrail, hlead]
      · exact Or.inl (by simp [unbracedCodePoint, hfour, hlead])

/-- What is read as an escape is one escape, or two that are a surrogate pair. -/
theorem unicodeEscape_recognised {s : List Char} (h : (unicodeEscape s).notices = []) :
    (∃ u n, UnicodeEscape ('u' :: u) n ∧ s = u ++ (unicodeEscape s).rest ∧
        (unicodeEscape s).value = some n) ∨
      ∃ ds es, FourHexDigits ds ∧ FourHexDigits es ∧
        CodePoint.isLeadSurrogate (Numeral.number 16 ds) = true ∧
        CodePoint.isTrailSurrogate (Numeral.number 16 es) = true ∧
        s = ds ++ '\\' :: 'u' :: (es ++ (unicodeEscape s).rest) ∧
        (unicodeEscape s).value =
          some (CodePoint.ofSurrogates (Numeral.number 16 ds) (Numeral.number 16 es)) := by
  unfold unicodeEscape at h ⊢
  split at h
  · next t =>
      obtain ⟨ds, hds, hle, hs, hvalue⟩ := bracedCodePoint_recognised h
      refine Or.inl ⟨'{' :: (ds ++ ['}']), _, .braced hds hle, ?_, hvalue⟩
      simpa using hs
  · obtain ⟨ds, hds, ⟨hs, hvalue⟩ | ⟨es, hes, hlead, htrail, hs, hvalue⟩⟩ :=
      unbracedCodePoint_recognised h
    · exact Or.inl ⟨ds, _, .four hds, hs, hvalue⟩
    · exact Or.inr ⟨ds, es, hds, hes, hlead, htrail, hs, hvalue⟩

theorem takeWhile_isPropertyChar (t : List Char) :
    ∀ d ∈ t.takeWhile isPropertyChar, d.isAlphanum = true ∨ d = '_' ∨ d = '=' :=
  fun d hd => (isPropertyChar_iff d).mp (List.all_eq_true.mp List.all_takeWhile d hd)

theorem propertyExpression_recognised {s : List Char} (h : (propertyExpression s).notices = []) :
    ∃ u, (∀ d ∈ u, d.isAlphanum = true ∨ d = '_' ∨ d = '=') ∧
      s = '{' :: (u ++ '}' :: (propertyExpression s).rest) := by
  unfold propertyExpression at h ⊢
  split at h
  · next t =>
      have hrest := eq_cons_of_expect (expect_value_of_notices h)
      refine ⟨t.takeWhile isPropertyChar, takeWhile_isPropertyChar t, ?_⟩
      dsimp only [Lexeme.discard]
      rw [← hrest, List.takeWhile_append_dropWhile]
  · cases h

theorem controlLetter_recognised {s : List Char} (h : (controlLetter s).notices = []) :
    ∃ c, c.isAlpha = true ∧ s = c :: (controlLetter s).rest := by
  unfold controlLetter at h ⊢
  split at h
  · cases h
  · next c t =>
      split at h
      · next hc => exact ⟨c, hc, by simp [hc]⟩
      · cases h

theorem hexEscape_recognised {s : List Char} (h : (hexEscape s).notices = []) :
    ∃ a b, Numeral.isHexDigit a = true ∧ Numeral.isHexDigit b = true ∧
      s = a :: b :: (hexEscape s).rest := by
  unfold hexEscape at h ⊢
  split at h
  · next a b t =>
      split at h
      · next hab =>
          obtain ⟨ha, hb⟩ := Bool.and_eq_true_iff.mp hab
          exact ⟨a, b, ha, hb, by simp [hab]⟩
      · cases h
  · cases h

theorem charEscape_of_not_mem {c : Char} (h : c ∉ openEscapes) : CharEscape [c] := by
  by_cases hc : c ∈ wholeEscapes
  · exact .whole hc
  · exact .identity hc h

/-- What is read as an escape is one escape, or an escape and a second one behind a backslash. -/
theorem characterEscape_recognised {c : Char} {s : List Char}
    (h : (characterEscape c s).notices = []) :
    (∃ e, CharEscape (c :: e) ∧ s = e ++ (characterEscape c s).rest) ∨
      ∃ e f, CharEscape (c :: e) ∧ CharEscape ('u' :: f) ∧
        s = e ++ '\\' :: 'u' :: (f ++ (characterEscape c s).rest) := by
  unfold characterEscape at h ⊢
  split at h
  · obtain ⟨u, hu, hs⟩ := propertyExpression_recognised h
    exact Or.inl ⟨_, .property (Or.inl rfl) hu, by simpa using hs⟩
  · obtain ⟨u, hu, hs⟩ := propertyExpression_recognised h
    exact Or.inl ⟨_, .property (Or.inr rfl) hu, by simpa using hs⟩
  · obtain ⟨c, hc, hs⟩ := controlLetter_recognised h
    exact Or.inl ⟨[c], .control hc, hs⟩
  · obtain ⟨a, b, ha, hb, hs⟩ := hexEscape_recognised h
    exact Or.inl ⟨[a, b], .hex ha hb, hs⟩
  · rcases unicodeEscape_recognised h with
      ⟨u, n, hu, hs, -⟩ | ⟨ds, es, hds, hes, -, -, hs, -⟩
    · exact Or.inl ⟨u, .unicode hu, hs⟩
    · exact Or.inr ⟨ds, es, .unicode (.four hds), .unicode (.four hes), hs⟩
  · next hp hP hc hx hu =>
      refine Or.inl ⟨[], charEscape_of_not_mem ?_, rfl⟩
      simp only [openEscapes, List.mem_cons, List.not_mem_nil, or_false, not_or]
      exact ⟨hp, hP, hc, hx, hu⟩

/-- What is read behind a backslash in a class stands, with the backslash, in front of further
items. -/
theorem classEscape_recognised {s : List Char} (h : (classEscape s).notices = []) :
    ∃ u, s = u ++ (classEscape s).rest ∧
      ∀ v, ClassItems v → ClassItems ('\\' :: (u ++ v)) := by
  cases s with
  | nil => cases h
  | cons c s =>
      rcases characterEscape_recognised h with ⟨e, he, hs⟩ | ⟨e, f, he, hf, hs⟩
      · exact ⟨c :: e, congrArg (c :: ·) hs, fun v hv => .escape he hv⟩
      · refine ⟨c :: (e ++ '\\' :: 'u' :: f), ?_, fun v hv => ?_⟩
        · rw [List.cons_append, List.append_assoc]
          exact congrArg (c :: ·) hs
        · have := ClassItems.escape he (.escape hf hv)
          simpa using this

theorem classMembers_recognised {s : List Char} (h : (classMembers s).notices = []) :
    ∃ u, ClassItems u ∧ s = u ++ ']' :: (classMembers s).rest := by
  fun_induction classMembers s with
  | case1 => cases h
  | case2 s => exact ⟨[], .nil, rfl⟩
  | case3 s hb escape members ih =>
      obtain ⟨hescape, hmembers⟩ := List.append_eq_nil_iff.mp h
      obtain ⟨e, hs, he⟩ := classEscape_recognised hescape
      obtain ⟨u, hu, hrest⟩ := ih hmembers
      refine ⟨'\\' :: (e ++ u), he u hu, ?_⟩
      rw [List.cons_append, List.append_assoc, ← hrest, ← hs]
  | case4 c s hb he ih =>
      obtain ⟨u, hu, hs⟩ := ih h
      exact ⟨c :: u, .plain hb he hu, congrArg (c :: ·) hs⟩

theorem characterClass_recognised {s : List Char} (h : (characterClass s).notices = []) :
    ∃ u, ClassItems u ∧ s = u ++ ']' :: (characterClass s).rest := by
  rw [characterClass_eq_classMembers] at h ⊢
  exact classMembers_recognised h

/-- What is read as an escape spells the character of its number, if there is one. -/
theorem unicodeEscape_spells {s : List Char} (h : (unicodeEscape s).notices = []) :
    ∃ u n, s = u ++ (unicodeEscape s).rest ∧ (unicodeEscape s).value = some n ∧
      ∀ c : Char, c.toNat = n → SpellsChar ('\\' :: 'u' :: u) c := by
  rcases unicodeEscape_recognised h with
    ⟨u, n, hu, hs, hn⟩ | ⟨ds, es, hds, hes, hlead, htrail, hs, hn⟩
  · exact ⟨u, n, hs, hn, fun c hc => .escape (hc ▸ hu)⟩
  · exact ⟨ds ++ '\\' :: 'u' :: es, _, by simpa using hs, hn,
      fun c hc => .pair hds hes hlead htrail hc⟩

theorem nameChar_escape_recognised {accept : Char → Bool} {s : List Char}
    (h : (nameChar accept ('\\' :: 'u' :: s)).notices = []) :
    ∃ u c, SpellsChar ('\\' :: 'u' :: u) c ∧ accept c = true ∧
      nameChar accept ('\\' :: 'u' :: s) = ⟨.valid c, (unicodeEscape s).rest, []⟩ ∧
      s = u ++ (unicodeEscape s).rest := by
  have hclean : (unicodeEscape s).notices = [] := by
    simp only [nameChar] at h
    split at h
    · exact h
    · split at h
      · exact h
      · exact (List.append_eq_nil_iff.mp h).1
  obtain ⟨u, n, hs, hn, hspell⟩ := unicodeEscape_spells hclean
  simp only [nameChar, hn, hclean] at h ⊢
  cases hchar : (CodePoint.toChar? n).filter accept with
  | none =>
      rw [hchar] at h
      cases h
  | some c =>
      obtain ⟨hc, haccept⟩ := Option.filter_eq_some_iff.mp hchar
      exact ⟨u, c, hspell c (CodePoint.toChar?_eq_some_iff.mp hc), haccept, rfl, hs⟩

/-- What is read where a character of a name may be, without a notice: a spelling of a character
that may stand there, or nothing. -/
theorem nameChar_recognised {accept : Char → Bool} {s : List Char}
    (h : (nameChar accept s).notices = []) :
    nameChar accept s = ⟨.absent, s, []⟩ ∨
      ∃ u c v, SpellsChar u c ∧ accept c = true ∧ s = u ++ v ∧
        nameChar accept s = ⟨.valid c, v, []⟩ := by
  by_cases hu : ∃ t, s = '\\' :: 'u' :: t
  · obtain ⟨t, rfl⟩ := hu
    obtain ⟨u, c, hspell, haccept, hread, ht⟩ := nameChar_escape_recognised h
    exact Or.inr ⟨_, c, _, hspell, haccept, congrArg ('\\' :: 'u' :: ·) ht, hread⟩
  · cases s with
    | nil => exact Or.inl rfl
    | cons c t =>
        have hread : nameChar accept (c :: t) =
            if accept c then ⟨.valid c, t, []⟩ else ⟨.absent, c :: t, []⟩ := by
          unfold nameChar
          split
          · next heq => exact absurd ⟨_, heq⟩ hu
          · next heq =>
              obtain ⟨rfl, rfl⟩ := List.cons.inj heq
              rfl
          · next heq => cases heq
        rw [hread]
        by_cases hc : accept c = true
        · exact Or.inr ⟨[c], c, t, .literal c, hc, rfl, if_pos hc⟩
        · exact Or.inl (if_neg hc)

theorem nameTail_recognised {s : List Char} (h : (nameTail s).notices = []) :
    ∃ u name, SpellsTail u name ∧ s = u ++ (nameTail s).rest ∧ (nameTail s).value = some name := by
  fun_induction nameTail s with
  | case1 s first habsent =>
      rcases nameChar_recognised h with hread | ⟨u, c, v, -, -, -, hread⟩
      · exact ⟨[], [], .nil, congrArg Lexeme.rest hread.symm, rfl⟩
      · have hvalid : first.value = .valid c := congrArg Lexeme.value hread
        rw [hvalid] at habsent
        cases habsent
  | case2 s first hpresent hlt tail ih =>
      obtain ⟨hfirst, htail⟩ := List.append_eq_nil_iff.mp h
      obtain ⟨t, name, ht, hs, hvalue⟩ := ih htail
      rcases nameChar_recognised hfirst with hread | ⟨u, c, v, hspell, hc, rfl, hread⟩
      · exact absurd (congrArg Lexeme.value hread) hpresent
      · have hvalid : first.value = .valid c := congrArg Lexeme.value hread
        have hrest : first.rest = v := congrArg Lexeme.rest hread
        refine ⟨u ++ t, c :: name, .cons hspell hc ht, ?_, ?_⟩
        · rw [List.append_assoc, ← hs, hrest]
        · dsimp only
          rw [hvalid, hvalue]
          rfl

theorem nameToEnd_recognised {s : List Char} (h : (nameToEnd s).notices = []) :
    ∃ u name, SpellsName u name ∧ s = u ++ '>' :: (nameToEnd s).rest ∧
      (nameToEnd s).value = some name := by
  unfold nameToEnd at h ⊢
  dsimp only at h ⊢
  split at h
  · exact absurd (List.append_eq_nil_iff.mp h).2 (by simp)
  · next hpresent =>
      obtain ⟨hboth, hclose⟩ := List.append_eq_nil_iff.mp h
      obtain ⟨hfirst, htail⟩ := List.append_eq_nil_iff.mp hboth
      rcases nameChar_recognised hfirst with hread | ⟨u, c, v, hspell, hc, rfl, hread⟩
      · exact absurd (congrArg Lexeme.value hread) hpresent
      · rw [if_neg hpresent]
        simp only [hread] at htail hclose ⊢
        obtain ⟨t, name, ht, hs, hvalue⟩ := nameTail_recognised htail
        have hclosed := expect_value_of_notices hclose
        refine ⟨u ++ t, c :: name, .mk hspell hc ht, ?_, ?_⟩
        · rw [List.append_assoc, ← eq_cons_of_expect hclosed, ← hs]
        · rw [if_pos hclosed, hvalue]
          rfl

theorem groupName_recognised {s : List Char} (h : (groupName s).notices = []) :
    ∃ u name, SpellsName u name ∧ s = '<' :: (u ++ '>' :: (groupName s).rest) ∧
      (groupName s).value = some (String.ofList name) := by
  unfold groupName at h ⊢
  split at h
  · obtain ⟨u, name, hname, hs, hvalue⟩ := nameToEnd_recognised h
    exact ⟨u, name, hname, congrArg ('<' :: ·) hs, congrArg (Option.map String.ofList) hvalue⟩
  · cases h

/-- What is read between the first number of a counted quantifier and its closing brace. -/
theorem greatestCount_recognised {ds : List Char} (hds : Digits Char.isDigit ds) (t : List Char) :
    ∃ u, t = u ++ (greatestCount (countOf ds) t).rest ∧
      (countOf ds ≤ (greatestCount (countOf ds) t).value →
        BareQuantifier ('{' :: (ds ++ (u ++ ['}'])))
          ⟨countOf ds, (greatestCount (countOf ds) t).value⟩) := by
  unfold greatestCount
  split
  · next t =>
      cases hempty : (t.takeWhile Char.isDigit).isEmpty with
      | true =>
          have hnil : t.takeWhile Char.isDigit = [] := List.isEmpty_iff.mp hempty
          have hdrop : t.dropWhile Char.isDigit = t := by
            have happend := List.takeWhile_append_dropWhile (p := Char.isDigit) (l := t)
            rwa [hnil, List.nil_append] at happend
          refine ⟨[','], by rw [hdrop]; rfl, fun _ => ?_⟩
          dsimp only
          rw [if_pos hempty]
          exact .atLeast hds
      | false =>
          have hes := digits_takeWhile hempty
          refine ⟨',' :: t.takeWhile Char.isDigit, ?_, fun hle => ?_⟩
          · rw [List.cons_append, List.takeWhile_append_dropWhile]
          · simp only [hempty, count_eq_countOf hes, Bool.false_eq_true, if_false] at hle ⊢
            exact .between hds hes hle
  · exact ⟨[], rfl, fun _ => .exactly hds⟩

theorem countedQuantifier_recognised {s : List Char} (h : (countedQuantifier s).notices = []) :
    ∃ u q v, BareQuantifier ('{' :: u) q ∧ s = u ++ v ∧
      countedQuantifier s = ⟨some q, v, []⟩ := by
  cases hempty : (s.takeWhile Char.isDigit).isEmpty with
  | true => simp [countedQuantifier, hempty] at h
  | false =>
      have hds := digits_takeWhile hempty
      have hs := List.takeWhile_append_dropWhile (p := Char.isDigit) (l := s)
      obtain ⟨u, ht, hbare⟩ := greatestCount_recognised hds (s.dropWhile Char.isDigit)
      simp only [countedQuantifier, hempty, count_eq_countOf hds, Bool.false_eq_true,
        if_false] at h ⊢
      generalize s.takeWhile Char.isDigit = ds at hs ht hbare h ⊢
      generalize greatestCount (countOf ds) _ = greatest at ht hbare h ⊢
      split at h
      · next hclosed =>
          have horder : ¬ greatest.value < countOf ds := by
            intro hlt
            rw [if_pos hlt] at h
            cases h
          have hclose := eq_cons_of_expect hclosed
          refine ⟨_, _, _, hbare (Nat.not_lt.mp horder), ?_, by rw [if_pos hclosed, if_neg horder]⟩
          rw [List.append_assoc, List.append_assoc, List.singleton_append, ← hclose, ← ht, hs]
      · next hopen => exact absurd (expect_value_of_notices h) hopen

theorem bareQuantifier_recognised {s : List Char} (h : (bareQuantifier s).notices = []) :
    bareQuantifier s = ⟨none, s, []⟩ ∨
      ∃ u q v, BareQuantifier u q ∧ s = u ++ v ∧ bareQuantifier s = ⟨some q, v, []⟩ := by
  unfold bareQuantifier at h ⊢
  split at h
  · exact Or.inr ⟨['+'], _, _, .plus, rfl, rfl⟩
  · exact Or.inr ⟨['*'], _, _, .star, rfl, rfl⟩
  · exact Or.inr ⟨['?'], _, _, .mark, rfl, rfl⟩
  · obtain ⟨u, q, v, hu, hs, hread⟩ := countedQuantifier_recognised h
    exact Or.inr ⟨'{' :: u, q, v, hu, congrArg ('{' :: ·) hs, hread⟩
  · exact Or.inl rfl

/-- What is read behind an atom without notices is what may follow an atom. -/
theorem quantifier_recognised {s : List Char} (h : (quantifier s).notices = []) :
    ∃ u, Quantification u (quantifier s).value ∧ s = u ++ (quantifier s).rest := by
  have hbare : (bareQuantifier s).notices = [] := by
    unfold quantifier at h
    dsimp only at h
    split at h <;> exact h
  rcases bareQuantifier_recognised hbare with hread | ⟨u, q, v, hu, rfl, hread⟩
  · exact ⟨[], by simpa [quantifier, hread] using Quantification.once, by simp [quantifier, hread]⟩
  · have hquant : quantifier (u ++ v) = ⟨some q, Lexeme.skipOptional '?' v, []⟩ := by
      simp [quantifier, hread]
    rw [hquant]
    rcases Lexeme.skipOptional_cases '?' v with ⟨w, rfl, hskip⟩ | ⟨-, hskip⟩
    · exact ⟨u ++ ['?'], .lazy hu, by simp [hskip]⟩
    · exact ⟨u, .greedy hu, by rw [hskip]⟩

end NamedCaptures.Grammar
