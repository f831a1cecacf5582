import NamedCaptures.Proofs.Grammar.Token
import NamedCaptures.Pattern.Opening
import Mathlib.Data.List.Basic

/-!
# Reading tokens

What each reader of tokens does with a text that begins with a token of the grammar: it reads the
token and nothing else, and notes nothing. The one exception is an escape of four digits for a lead
surrogate, which takes a trail escape that follows at once along with it.
-/

namespace NamedCaptures.Grammar

open Pattern

/-- A text whose first character, if there is one, begins no quantifier. -/
def NoQuantifier (s : List Char) : Prop :=
  ∀ c t, s = c :: t → isQuantifierStart c = false

section Runs

variable {accept : Char → Bool} {ds t : List Char} {x : Char}

/-- A run of characters ends where a text does not go on with one of them. -/
theorem takeWhile_append_of_head (h : ∀ c ∈ ds, accept c = true)
    (ht : t.head?.any accept = false) : (ds ++ t).takeWhile accept = ds := by
  rw [List.takeWhile_append_of_pos h]
  cases t with
  | nil => exact List.append_nil ds
  | cons x t =>
      have hx : ¬ accept x = true := by simpa using ht
      rw [List.takeWhile_cons_of_neg hx, List.append_nil]

theorem dropWhile_append_of_head (h : ∀ c ∈ ds, accept c = true)
    (ht : t.head?.any accept = false) : (ds ++ t).dropWhile accept = t := by
  rw [List.dropWhile_append_of_pos h]
  cases t with
  | nil => rfl
  | cons x t =>
      have hx : ¬ accept x = true := by simpa using ht
      rw [List.dropWhile_cons_of_neg hx]

theorem takeWhile_run (h : ∀ c ∈ ds, accept c = true) (hx : accept x = false) (v : List Char) :
    (ds ++ x :: v).takeWhile accept = ds :=
  takeWhile_append_of_head h hx

theorem dropWhile_run (h : ∀ c ∈ ds, accept c = true) (hx : accept x = false) (v : List Char) :
    (ds ++ x :: v).dropWhile accept = x :: v :=
  dropWhile_append_of_head h hx

end Runs

theorem isSyntaxChar_eq_false {c : Char} (h : c ∉ syntaxChars) : isSyntaxChar c = false := by
  simpa [isSyntaxChar, syntaxChars] using h

@[simp]
theorem expect_self (c : Char) (missing : Problem.Kind) (v : List Char) :
    Lexeme.expect c missing (c :: v) = ⟨true, v, []⟩ := by
  simp [Lexeme.expect]

theorem fourHexDigits?_append {ds : List Char} (h : FourHexDigits ds) (v : List Char) :
    fourHexDigits? (ds ++ v) = some (Numeral.number 16 ds, v) := by
  obtain ⟨a, b, c, d, rfl⟩ := List.length_eq_four.mp h.1
  simp only [List.cons_append, List.nil_append, fourHexDigits?]
  rw [if_pos (List.all_eq_true.mpr h.2), Numeral.value_eq_number 16 h.2]

theorem exists_of_fourHexDigits? {s v : List Char} {n : Nat} (h : fourHexDigits? s = some (n, v)) :
    ∃ ds, FourHexDigits ds ∧ s = ds ++ v ∧ Numeral.number 16 ds = n := by
  unfold fourHexDigits? at h
  split at h
  · next a b c d u =>
      split at h
      · next hall =>
          cases h
          have hdigits := List.all_eq_true.mp hall
          exact ⟨[a, b, c, d], ⟨rfl, hdigits⟩, rfl, (Numeral.value_eq_number 16 hdigits).symm⟩
      · cases h
  · cases h

theorem trailEscape?_append {es : List Char} (h : FourHexDigits es)
    (ht : CodePoint.isTrailSurrogate (Numeral.number 16 es) = true) (v : List Char) :
    trailEscape? ('\\' :: 'u' :: (es ++ v)) = some (Numeral.number 16 es, v) := by
  simp only [trailEscape?, fourHexDigits?_append h]
  exact Option.filter_eq_some_iff.mpr ⟨rfl, ht⟩

theorem exists_of_trailEscape? {s v : List Char} {n : Nat} (h : trailEscape? s = some (n, v)) :
    ∃ es, FourHexDigits es ∧ s = '\\' :: 'u' :: (es ++ v) ∧ Numeral.number 16 es = n ∧
      CodePoint.isTrailSurrogate n = true := by
  unfold trailEscape? at h
  split at h
  · next u =>
      obtain ⟨hfour, htrail⟩ := Option.filter_eq_some_iff.mp h
      obtain ⟨es, hes, rfl, hval⟩ := exists_of_fourHexDigits? hfour
      exact ⟨es, hes, rfl, hval, htrail⟩
  · cases h

/-- No number is both halves of a surrogate pair. -/
theorem isLeadSurrogate_of_isTrailSurrogate {n : Nat} (h : CodePoint.isTrailSurrogate n = true) :
    CodePoint.isLeadSurrogate n = false := by
  simp only [CodePoint.isTrailSurrogate, Bool.and_eq_true, decide_eq_true_eq] at h
  simp only [CodePoint.isLeadSurrogate, Bool.and_eq_false_iff, decide_eq_false_iff_not]
  omega

/-- The code point of a character is no surrogate. -/
theorem isLeadSurrogate_toNat (c : Char) : CodePoint.isLeadSurrogate c.toNat = false := by
  have hc : c.toNat < 0xD800 ∨ 0xDFFF < c.toNat ∧ c.toNat < 0x110000 := c.valid
  simp only [CodePoint.isLeadSurrogate, Bool.and_eq_false_iff, decide_eq_false_iff_not]
  omega

theorem UnicodeEscape.exists_cons {s : List Char} {n : Nat} (h : UnicodeEscape s n) :
    ∃ u, s = 'u' :: u := by
  cases h with
  | four _ => exact ⟨_, rfl⟩
  | braced _ _ => exact ⟨_, rfl⟩

/-- Four digits do not begin with a brace. -/
theorem unicodeEscape_eq_unbraced {ds : List Char} (h : FourHexDigits ds) (v : List Char) :
    unicodeEscape (ds ++ v) = unbracedCodePoint (ds ++ v) := by
  obtain ⟨a, b, c, d, rfl⟩ := List.length_eq_four.mp h.1
  have ha : a ≠ '{' := by
    rintro rfl
    exact absurd (h.2 '{' List.mem_cons_self) (by decide)
  unfold unicodeEscape
  split
  · next heq => exact absurd (List.cons.inj heq).1 ha
  · rfl

/-- Four digits are read alone unless they are the first half of a surrogate pair. -/
theorem unicodeEscape_four {ds : List Char} (h : FourHexDigits ds) (v : List Char)
    (hv : CodePoint.isLeadSurrogate (Numeral.number 16 ds) = false ∨ trailEscape? v = none) :
    unicodeEscape (ds ++ v) = ⟨some (Numeral.number 16 ds), v, []⟩ := by
  rw [unicodeEscape_eq_unbraced h]
  simp only [unbracedCodePoint, fourHexDigits?_append h]
  rcases hv with hv | hv
  · simp [hv]
  · simp [hv]

theorem unicodeEscape_pair {ds : List Char} (h : FourHexDigits ds)
    (hlead : CodePoint.isLeadSurrogate (Numeral.number 16 ds) = true) {v w : List Char} {m : Nat}
    (hv : trailEscape? v = some (m, w)) :
    unicodeEscape (ds ++ v) =
      ⟨some (CodePoint.ofSurrogates (Numeral.number 16 ds) m), w, []⟩ := by
  rw [unicodeEscape_eq_unbraced h]
  simp only [unbracedCodePoint, fourHexDigits?_append h, hlead, hv, if_true]

theorem unicodeEscape_braced {ds : List Char} (h : Digits Numeral.isHexDigit ds)
    (hle : Numeral.number 16 ds ≤ CodePoint.last) (v : List Char) :
    unicodeEscape ('{' :: (ds ++ '}' :: v)) = ⟨some (Numeral.number 16 ds), v, []⟩ := by
  have htake := takeWhile_run h.2 (x := '}') (by decide) v
  have hdrop := dropWhile_run h.2 (x := '}') (by decide) v
  have hne : ds.isEmpty = false := List.isEmpty_eq_false_iff.mpr h.1
  simp only [unicodeEscape, bracedCodePoint, htake, hdrop, hne, Numeral.value_eq_number 16 h.2,
    expect_self, if_pos hle, if_true, Bool.false_eq_true, if_false]

/-- An escape is read alone, or it is the first half of a surrogate pair and takes the second one
along. -/
theorem unicodeEscape_append {u : List Char} {n : Nat} (h : UnicodeEscape ('u' :: u) n)
    (v : List Char) :
    unicodeEscape (u ++ v) = ⟨some n, v, []⟩ ∨
      ∃ m w, CodePoint.isLeadSurrogate n = true ∧ trailEscape? v = some (m, w) ∧
        unicodeEscape (u ++ v) = ⟨some (CodePoint.ofSurrogates n m), w, []⟩ := by
  cases h with
  | four h =>
      by_cases hv : CodePoint.isLeadSurrogate (Numeral.number 16 u) = false ∨ trailEscape? v = none
      · exact Or.inl (unicodeEscape_four h v hv)
      · obtain ⟨hlead, htrail⟩ := not_or.mp hv
        rw [Bool.not_eq_false] at hlead
        obtain ⟨⟨m, w⟩, hw⟩ := Option.ne_none_iff_exists'.mp htrail
        exact Or.inr ⟨m, w, hlead, hw, unicodeEscape_pair h hlead hw⟩
  | braced h hle => exact Or.inl (by simpa using unicodeEscape_braced h hle v)

theorem characterEscape_of_not_mem {c : Char} (h : c ∉ openEscapes) (s : List Char) :
    characterEscape c s = ⟨(), s, []⟩ := by
  simp only [openEscapes, List.mem_cons, List.not_mem_nil, or_false, not_or] at h
  obtain ⟨hp, hP, hc, hx, hu⟩ := h
  unfold characterEscape
  split
  · exact absurd rfl hp
  · exact absurd rfl hP
  · exact absurd rfl hc
  · exact absurd rfl hx
  · exact absurd rfl hu
  · rfl

theorem isPropertyChar_iff (d : Char) :
    isPropertyChar d = true ↔ d.isAlphanum = true ∨ d = '_' ∨ d = '=' := by
  simp [isPropertyChar, or_assoc]

theorem propertyExpression_braced {s : List Char}
    (hs : ∀ d ∈ s, d.isAlphanum = true ∨ d = '_' ∨ d = '=') (v : List Char) :
    propertyExpression ('{' :: (s ++ '}' :: v)) = ⟨(), v, []⟩ := by
  have hall : ∀ d ∈ s, isPropertyChar d = true := fun d hd => (isPropertyChar_iff d).mpr (hs d hd)
  simp only [propertyExpression, dropWhile_run hall (x := '}') (by decide) v, expect_self,
    Lexeme.discard]

/-- An escape is read alone, or it is the first half of a surrogate pair and takes the second one
along. -/
theorem characterEscape_append {c : Char} {e : List Char} (h : CharEscape (c :: e))
    (v : List Char) :
    characterEscape c (e ++ v) = ⟨(), v, []⟩ ∨
      ∃ m w, trailEscape? v = some (m, w) ∧ characterEscape c (e ++ v) = ⟨(), w, []⟩ := by
  have hdisjoint : wholeEscapes.any openEscapes.contains = false := by decide
  have hopen (d : Char) (hd : d ∈ wholeEscapes) : d ∉ openEscapes := by
    simpa using List.any_eq_false.mp hdisjoint d hd
  cases h with
  | whole h => exact Or.inl (characterEscape_of_not_mem (hopen c h) v)
  | @property _ s hc hs =>
      have hread := propertyExpression_braced hs v
      rcases hc with rfl | rfl <;> exact Or.inl (by simpa [characterEscape] using hread)
  | control h => exact Or.inl (by simp [characterEscape, controlLetter, h])
  | hex ha hb => exact Or.inl (by simp [characterEscape, hexEscape, ha, hb])
  | @unicode _ n h =>
      obtain ⟨_, heq⟩ := h.exists_cons
      obtain ⟨rfl, rfl⟩ := List.cons.inj heq
      rcases unicodeEscape_append h v with hread | ⟨m, w, -, hw, hread⟩
      · exact Or.inl (by simp only [characterEscape, hread, Lexeme.discard])
      · exact Or.inr ⟨m, w, hw, by simp only [characterEscape, hread, Lexeme.discard]⟩
  | identity hw ho => exact Or.inl (characterEscape_of_not_mem ho v)

theorem classMembers_plain {c : Char} (hb : c ≠ ']') (he : c ≠ '\\') (s : List Char) :
    classMembers (c :: s) = classMembers s := by
  rw [classMembers, if_neg hb, if_neg he]

theorem classMembers_close (s : List Char) : classMembers (']' :: s) = ⟨(), s, []⟩ := by
  rw [classMembers, if_pos rfl]

/-- A class escape that is read without notices is passed over. -/
theorem classMembers_escape {c : Char} {s v : List Char} (h : characterEscape c s = ⟨(), v, []⟩) :
    classMembers ('\\' :: c :: s) = classMembers v := by
  rw [classMembers, if_neg (by decide), if_pos rfl]
  simp only [classEscape, h, List.nil_append]

/-- What a trail escape is inside a class: an escape like any other. -/
theorem classMembers_trailEscape {v w : List Char} {m : Nat} (h : trailEscape? v = some (m, w)) :
    classMembers v = classMembers w := by
  obtain ⟨es, hes, rfl, hval, htrail⟩ := exists_of_trailEscape? h
  have hlead := isLeadSurrogate_of_isTrailSurrogate htrail
  have hread := unicodeEscape_four hes w (Or.inl (hval ▸ hlead))
  exact classMembers_escape (by simp only [characterEscape, hread, Lexeme.discard])

/-- An escape and the items behind it are passed over, also where the escape is read together with
the first of them. -/
theorem classMembers_charEscape {e : List Char} (h : CharEscape e) (v : List Char) :
    classMembers ('\\' :: (e ++ v)) = classMembers v := by
  cases e with
  | nil => cases h with | unicode h => cases h
  | cons c e =>
      rcases characterEscape_append h v with hread | ⟨m, w, hw, hread⟩
      · exact classMembers_escape hread
      · exact (classMembers_escape hread).trans (classMembers_trailEscape hw).symm

theorem classMembers_items {s : List Char} (h : ClassItems s) (v : List Char) :
    classMembers (s ++ v) = classMembers v := by
  induction h with
  | nil => rfl
  | plain hb he _ ih => exact (classMembers_plain hb he _).trans ih
  | @escape e s he _ ih =>
      rw [List.cons_append, List.append_assoc]
      exact (classMembers_charEscape he _).trans ih

/-- The mark of a negated class is passed over like an item. -/
theorem characterClass_eq_classMembers (s : List Char) : characterClass s = classMembers s := by
  rw [characterClass]
  rcases Lexeme.skipOptional_cases '^' s with ⟨t, rfl, hskip⟩ | ⟨-, hskip⟩
  · rw [hskip]
    exact (classMembers_plain (by decide) (by decide) t).symm
  · rw [hskip]

theorem characterClass_append {s : List Char} (h : ClassItems s) (v : List Char) :
    characterClass (s ++ ']' :: v) = ⟨(), v, []⟩ := by
  rw [characterClass_eq_classMembers, classMembers_items h, classMembers_close]

theorem characterClass_negated {s : List Char} (h : ClassItems s) (v : List Char) :
    characterClass ('^' :: (s ++ ']' :: v)) = ⟨(), v, []⟩ :=
  characterClass_append (ClassItems.plain (by decide) (by decide) h) v

theorem isPart_closing : Identifier.isPart '>' = false := by
  decide +kernel

theorem isPart_backslash : Identifier.isPart '\\' = false := by
  decide +kernel

theorem isStart_eq_false_of_isPart {c : Char} (h : Identifier.isPart c = false) :
    Identifier.isStart c = false := by
  by_contra hs
  rw [Bool.not_eq_false] at hs
  rw [Identifier.isPart_of_isStart hs] at h
  cases h

theorem nameChar_literal {accept : Char → Bool} {c : Char} (hesc : accept '\\' = false)
    (hc : accept c = true) (v : List Char) : nameChar accept (c :: v) = ⟨.valid c, v, []⟩ := by
  unfold nameChar
  split
  · next heq =>
      rw [(List.cons.inj heq).1, hesc] at hc
      cases hc
  · next heq =>
      obtain ⟨rfl, rfl⟩ := List.cons.inj heq
      rw [if_pos hc]
  · next heq => cases heq

/-- A Unicode escape in a name is read as its character, if that may stand there. -/
theorem nameChar_escape {accept : Char → Bool} {c : Char} (hc : accept c = true) {n : Nat}
    (hn : c.toNat = n) {s v : List Char} (h : unicodeEscape s = ⟨some n, v, []⟩) :
    nameChar accept ('\\' :: 'u' :: s) = ⟨.valid c, v, []⟩ := by
  have hchar : (CodePoint.toChar? n).filter accept = some c :=
    Option.filter_eq_some_iff.mpr ⟨CodePoint.toChar?_eq_some_iff.mpr hn, hc⟩
  simp only [nameChar, h, hchar]

/-- A spelling of a character that may stand in a name is read as that character. -/
theorem nameChar_append {accept : Char → Bool} (hesc : accept '\\' = false) {s : List Char}
    {c : Char} (h : SpellsChar s c) (hc : accept c = true) (v : List Char) :
    nameChar accept (s ++ v) = ⟨.valid c, v, []⟩ := by
  cases h with
  | literal => exact nameChar_literal hesc hc v
  | @escape s _ h =>
      obtain ⟨u, rfl⟩ := h.exists_cons
      rcases unicodeEscape_append h v with hread | ⟨m, w, hlead, -, -⟩
      · exact nameChar_escape hc rfl hread
      · rw [isLeadSurrogate_toNat] at hlead
        cases hlead
  | @pair ds es _ hd he hlead htrail hval =>
      have hread := unicodeEscape_pair hd hlead (trailEscape?_append he htrail v)
      rw [List.cons_append, List.cons_append, List.append_assoc]
      exact nameChar_escape hc hval hread

theorem nameTail_append {s name : List Char} (h : SpellsTail s name) (v : List Char) :
    nameTail (s ++ '>' :: v) = ⟨some name, '>' :: v, []⟩ := by
  induction h with
  | nil =>
      have hread : nameChar Identifier.isPart ('>' :: v) = ⟨.absent, '>' :: v, []⟩ := by
        simp [nameChar, isPart_closing]
      rw [List.nil_append, nameTail]
      simp [hread]
  | cons h hc _ ih =>
      have hread := nameChar_append isPart_backslash h hc
      rw [nameTail, List.append_assoc]
      simp [hread, ih, NameChar.cons]

theorem groupName_append {s name : List Char} (h : SpellsName s name) (v : List Char) :
    groupName ('<' :: (s ++ '>' :: v)) = ⟨some (String.ofList name), v, []⟩ := by
  cases h with
  | mk h hc ht =>
      have hread := nameChar_append (isStart_eq_false_of_isPart isPart_backslash) h hc
      have htail := nameTail_append ht v
      simp [groupName, nameToEnd, hread, htail, NameChar.cons]

theorem bareQuantifier_of_noQuantifier {s : List Char} (h : NoQuantifier s) :
    bareQuantifier s = ⟨none, s, []⟩ := by
  unfold bareQuantifier
  split
  · exact absurd (h _ _ rfl) (by decide)
  · exact absurd (h _ _ rfl) (by decide)
  · exact absurd (h _ _ rfl) (by decide)
  · exact absurd (h _ _ rfl) (by decide)
  · rfl

theorem skipOptional_of_noQuantifier {s : List Char} (h : NoQuantifier s) :
    Lexeme.skipOptional '?' s = s := by
  rcases Lexeme.skipOptional_cases '?' s with ⟨t, rfl, -⟩ | ⟨-, hskip⟩
  · exact absurd (h '?' t rfl) (by decide)
  · exact hskip

theorem count_eq_countOf {ds : List Char} (h : Digits Char.isDigit ds) :
    Pattern.Quantifier.count ds = countOf ds := by
  have hvalue : Numeral.value 10 ds = Numeral.number 10 ds :=
    Numeral.value_eq_number 10 fun c hc => Numeral.isHexDigit_of_isDigit (h.2 c hc)
  rw [Pattern.Quantifier.count, hvalue, countOf, Pattern.Quantifier.maxCount]

theorem countOf_le_maxCount (ds : List Char) : countOf ds ≤ Pattern.Quantifier.maxCount :=
  Nat.min_le_right _ _

theorem greatestCount_close (least : Nat) (v : List Char) :
    greatestCount least ('}' :: v) = ⟨least, '}' :: v, []⟩ := rfl

theorem greatestCount_open (least : Nat) (v : List Char) :
    greatestCount least (',' :: '}' :: v) = ⟨Pattern.Quantifier.maxCount, '}' :: v, []⟩ := rfl

theorem greatestCount_digits (least : Nat) {es : List Char} (h : Digits Char.isDigit es)
    (v : List Char) :
    greatestCount least (',' :: (es ++ '}' :: v)) =
      ⟨countOf es, '}' :: v, []⟩ := by
  have hne : es.isEmpty = false := List.isEmpty_eq_false_iff.mpr h.1
  simp only [greatestCount, takeWhile_run h.2 (x := '}') (by decide) v,
    dropWhile_run h.2 (x := '}') (by decide) v, hne, count_eq_countOf h, Bool.false_eq_true,
    if_false]

/-- A counted quantifier is read from its digits and from what is read behind them. Counts out of
order are noted at its brace. -/
theorem countedQuantifier_digits {ds : List Char} (h : Digits Char.isDigit ds) {x : Char}
    (hx : x.isDigit = false) {s v : List Char} {greatest : Nat}
    (hread : greatestCount (countOf ds) (x :: s) = ⟨greatest, '}' :: v, []⟩) :
    countedQuantifier (ds ++ x :: s) =
      ⟨some ⟨countOf ds, greatest⟩, v,
        if greatest < countOf ds then [⟨.quantifierOutOfOrder, '{' :: (ds ++ x :: s)⟩]
        else []⟩ := by
  have hne : ds.isEmpty = false := List.isEmpty_eq_false_iff.mpr h.1
  simp only [countedQuantifier, takeWhile_run h.2 hx s, dropWhile_run h.2 hx s, hne,
    count_eq_countOf h, hread, expect_self, Bool.false_eq_true, if_false, if_true]

theorem countedQuantifier_eq {ds : List Char} (h : Digits Char.isDigit ds) {x : Char}
    (hx : x.isDigit = false) {s v : List Char} {greatest : Nat}
    (hread : greatestCount (countOf ds) (x :: s) = ⟨greatest, '}' :: v, []⟩)
    (hle : countOf ds ≤ greatest) :
    countedQuantifier (ds ++ x :: s) = ⟨some ⟨countOf ds, greatest⟩, v, []⟩ := by
  rw [countedQuantifier_digits h hx hread, if_neg (Nat.not_lt.mpr hle)]

theorem bareQuantifier_append {s : List Char} {q : Pattern.Quantifier} (h : BareQuantifier s q)
    (v : List Char) : bareQuantifier (s ++ v) = ⟨some q, v, []⟩ := by
  cases h with
  | star => rfl
  | plus => rfl
  | mark => rfl
  | @exactly ds h =>
      have hread := countedQuantifier_eq h (by decide) (greatestCount_close _ v) (Nat.le_refl _)
      simpa [bareQuantifier] using hread
  | @atLeast ds h =>
      have hread := countedQuantifier_eq h (by decide) (greatestCount_open _ v)
        (countOf_le_maxCount ds)
      simpa [bareQuantifier] using hread
  | @between ds es hd he hle =>
      have hread := countedQuantifier_eq hd (by decide) (greatestCount_digits _ he v) hle
      simpa [bareQuantifier] using hread

/-- What follows an atom is read to its end, if no further quantifier follows. -/
theorem quantifier_append {s : List Char} {q : Option Pattern.Quantifier}
    (h : Quantification s q) {v : List Char} (hv : NoQuantifier v) :
    quantifier (s ++ v) = ⟨q, v, []⟩ := by
  cases h with
  | once => simp [quantifier, bareQuantifier_of_noQuantifier hv]
  | greedy h =>
      simp [quantifier, bareQuantifier_append h, skipOptional_of_noQuantifier hv]
  | @lazy s q h =>
      have hskip : Lexeme.skipOptional '?' ('?' :: v) = v := rfl
      simp [quantifier, bareQuantifier_append h, hskip]

end NamedCaptures.Grammar
