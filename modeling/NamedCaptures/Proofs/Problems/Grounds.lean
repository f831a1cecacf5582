import NamedCaptures.Proofs.Grammar.TokenRecognition
import NamedCaptures.Proofs.Readers.Order

/-!
# The grounds of a problem

Why a problem is noted where it is can be read off the text around the place: what stands directly
before it, and how the text goes on. `Grounds` lists both for every kind of problem, in the words of
the grammar. Then there is one statement for each reader of tokens: whatever it notes has its
grounds (`Grounded`), in the text that the token began in.

## Implementation notes

A ground looks only at a fixed part of the text before the place. So it holds just as well with more
text in front (`Grounded.behind`), and no statement about a reader says what was read before it.
-/

namespace NamedCaptures.Problem

open Grammar

/-- The text begins with a character of that sort. -/
def BeginsWith (p : Char → Prop) (s : List Char) : Prop :=
  ∃ c t, s = c :: t ∧ p c

/-- What stands before a group name: the beginning of a group or of a back reference. -/
def nameOpenings : List (List Char) :=
  [['(', '?', '<'], ['\\', 'k', '<']]

/-- A character of which the text of a name consists, that of escapes in it included, well formed or
not. -/
def InName (c : Char) : Prop :=
  Identifier.isPart c = true ∨ c ∈ ['\\', '{', '}']

/-- An escape in a group name and the number that it stands for: one Unicode escape, or the two of a
surrogate pair. -/
inductive NamesNumber : List Char → Nat → Prop
  | escape {s : List Char} {n : Nat} (h : UnicodeEscape s n) : NamesNumber ('\\' :: s) n
  | pair {ds es : List Char} (hd : FourHexDigits ds) (he : FourHexDigits es)
      (hlead : CodePoint.isLeadSurrogate (Numeral.number 16 ds) = true)
      (htrail : CodePoint.isTrailSurrogate (Numeral.number 16 es) = true) :
      NamesNumber ('\\' :: 'u' :: (ds ++ '\\' :: 'u' :: es))
        (CodePoint.ofSurrogates (Numeral.number 16 ds) (Numeral.number 16 es))

/-- Why a problem of a kind is noted between two texts: the first stands directly before the place,
and the second is all that follows it. -/
inductive Grounds : Kind → List Char → List Char → Prop
  | strayCloser {c : Char} {r : List Char} (h : c ∈ [')', ']', '}']) :
      Grounds .strayCloser [] (c :: r)
  | unclosedGroup : Grounds .unclosedGroup [] []
  | bareBackslash : Grounds .bareBackslash ['\\'] []
  | propertyWithoutBrace {c : Char} {r : List Char} (hc : c = 'p' ∨ c = 'P')
      (hr : ¬ BeginsWith (· = '{') r) : Grounds .propertyWithoutBrace ['\\', c] r
  | unclosedProperty {c : Char} {u r : List Char} (hc : c = 'p' ∨ c = 'P')
      (hu : ∀ d ∈ u, d.isAlphanum = true ∨ d = '_' ∨ d = '=')
      (hr : ¬ BeginsWith (fun d => d.isAlphanum = true ∨ d = '_' ∨ d = '=') r)
      (hclose : ¬ BeginsWith (· = '}') r) :
      Grounds .unclosedProperty ('\\' :: c :: '{' :: u) r
  | badControlLetter {r : List Char} (hr : ¬ BeginsWith (·.isAlpha = true) r) :
      Grounds .badControlLetter ['\\', 'c'] r
  | badHexEscape {r : List Char}
      (hr : ¬ ∃ a b t, r = a :: b :: t ∧ Numeral.isHexDigit a = true ∧
        Numeral.isHexDigit b = true) :
      Grounds .badHexEscape ['\\'] ('x' :: r)
  | codePointWithoutDigits {r : List Char}
      (hr : ¬ BeginsWith (Numeral.isHexDigit · = true) r) :
      Grounds .codePointWithoutDigits ['\\', 'u', '{'] r
  | unclosedCodePoint {ds r : List Char} (hds : Digits Numeral.isHexDigit ds)
      (hr : ¬ BeginsWith (Numeral.isHexDigit · = true) r) (hclose : ¬ BeginsWith (· = '}') r) :
      Grounds .unclosedCodePoint ('\\' :: 'u' :: '{' :: ds) r
  /-- All the digits that stand there are the number that is too large. -/
  | codePointTooLarge {ds r : List Char} (hds : Digits Numeral.isHexDigit ds)
      (hr : ¬ BeginsWith (Numeral.isHexDigit · = true) r)
      (hlarge : CodePoint.last < Numeral.number 16 ds) :
      Grounds .codePointTooLarge ['\\', 'u', '{'] (ds ++ r)
  | badUnicodeEscape {r : List Char} (hbrace : ¬ BeginsWith (· = '{') r)
      (hfour : ¬ ∃ ds t, FourHexDigits ds ∧ r = ds ++ t) :
      Grounds .badUnicodeEscape ['\\', 'u'] r
  /-- A question mark in a group begins neither a name nor anything else that it may begin. -/
  | groupWithoutName {r : List Char} (hr : ¬ BeginsWith (· ∈ ['<', ':', '=', '!']) r) :
      Grounds .groupNameWithoutOpening ['(', '?'] r
  | referenceWithoutName {r : List Char} (hr : ¬ BeginsWith (· = '<') r) :
      Grounds .groupNameWithoutOpening ['\\', 'k'] r
  | emptyGroupName {o r : List Char} (ho : o ∈ nameOpenings)
      (hr : ¬ BeginsWith (Identifier.isStart · = true) r) (hescape : ¬ ['\\', 'u'] <+: r) :
      Grounds .emptyGroupName o r
  | unclosedGroupName {o u r : List Char} (ho : o ∈ nameOpenings) (hne : u ≠ [])
      (hu : ∀ d ∈ u, InName d) (hr : ¬ BeginsWith (Identifier.isPart · = true) r)
      (hescape : ¬ ['\\', 'u'] <+: r) (hclose : ¬ BeginsWith (· = '>') r) :
      Grounds .unclosedGroupName (o ++ u) r
  /-- The escape is a well-formed one. As the first of the name it would have to begin an
  identifier, and else to continue one. -/
  | badGroupNameEscape {o u e r : List Char} {n : Nat} (ho : o ∈ nameOpenings)
      (hu : ∀ d ∈ u, InName d) (he : NamesNumber e n)
      (hbad : ∀ d : Char, d.toNat = n →
        (if u = [] then Identifier.isStart d else Identifier.isPart d) = false) :
      Grounds .badGroupNameEscape (o ++ u) (e ++ r)
  | quantifierWithoutDigits {r : List Char} (hr : ¬ BeginsWith (·.isDigit = true) r) :
      Grounds .quantifierWithoutDigits ['{'] r
  | unclosedLeast {ds r : List Char} (hds : Digits Char.isDigit ds)
      (hr : ¬ BeginsWith (fun d => d.isDigit = true ∨ d = ',') r)
      (hclose : ¬ BeginsWith (· = '}') r) :
      Grounds .unclosedQuantifier ('{' :: ds) r
  | unclosedGreatest {ds es r : List Char} (hds : Digits Char.isDigit ds)
      (hes : ∀ e ∈ es, e.isDigit = true) (hr : ¬ BeginsWith (·.isDigit = true) r)
      (hclose : ¬ BeginsWith (· = '}') r) :
      Grounds .unclosedQuantifier ('{' :: (ds ++ ',' :: es)) r
  | quantifierOutOfOrder {ds es r : List Char} (hds : Digits Char.isDigit ds)
      (hes : Digits Char.isDigit es)
      (horder : countOf es < countOf ds) :
      Grounds .quantifierOutOfOrder [] ('{' :: (ds ++ ',' :: (es ++ '}' :: r)))
  | unclosedClass : Grounds .unclosedClass [] []
  | bareBackslashInClass : Grounds .bareBackslashInClass ['\\'] []
  | nothingToRepeat {c : Char} {r : List Char} (h : c ∈ ['*', '+', '?', '{']) :
      Grounds .nothingToRepeat [] (c :: r)

/-- The notices are for places of the text, and each of them has its grounds there. -/
def Grounded (s : List Char) (ns : List Notice) : Prop :=
  ∀ n ∈ ns, ∃ w, Grounds n.kind w n.rest ∧ w ++ n.rest <:+ s

namespace Grounded

variable {s t w r : List Char} {ns ms : List Notice} {kind : Kind}

theorem nil (s : List Char) : Grounded s [] := by
  rintro n ⟨⟩

theorem singleton (h : Grounds kind w r) (hs : w ++ r <:+ s) : Grounded s [⟨kind, r⟩] := by
  intro n hn
  rw [List.mem_singleton.mp hn]
  exact ⟨w, h, hs⟩

theorem append (hn : Grounded s ns) (hm : Grounded s ms) : Grounded s (ns ++ ms) := by
  intro n h
  rcases List.mem_append.mp h with h | h
  · exact hn n h
  · exact hm n h

theorem cons (h : Grounds kind w r) (hs : w ++ r <:+ s) (hn : Grounded s ns) :
    Grounded s (⟨kind, r⟩ :: ns) :=
  (singleton h hs).append hn

/-- With more text in front the grounds are the same. -/
theorem behind (h : Grounded s ns) (hs : s <:+ t) : Grounded t ns := by
  intro n hn
  obtain ⟨w, hw, hsuffix⟩ := h n hn
  exact ⟨w, hw, hsuffix.trans hs⟩

end Grounded

section Tokens

open Pattern

variable {s : List Char}

theorem not_beginsWith_dropWhile (accept : Char → Bool) (s : List Char) :
    ¬ BeginsWith (accept · = true) (s.dropWhile accept) := by
  rintro ⟨c, t, hcons, hc⟩
  have hstop := List.head?_dropWhile_not accept s
  rw [hcons, List.head?_cons] at hstop
  exact absurd hc (by simpa using hstop)

/-- No run of characters begins where none has been found. -/
theorem not_beginsWith_of_isEmpty {accept : Char → Bool} (h : (s.takeWhile accept).isEmpty = true) :
    ¬ BeginsWith (accept · = true) s := by
  have hsplit := List.takeWhile_append_dropWhile (p := accept) (l := s)
  rw [List.isEmpty_iff.mp h, List.nil_append] at hsplit
  exact hsplit ▸ not_beginsWith_dropWhile accept s

/-- What is missing is noted where it would have to stand. -/
theorem grounded_expect {c : Char} {missing : Kind} {w : List Char}
    (h : ¬ BeginsWith (· = c) s → Grounds missing w s) :
    Grounded (w ++ s) (Lexeme.expect c missing s).notices := by
  rcases Lexeme.expect_cases c missing s with ⟨t, -, hread⟩ | ⟨hnext, hread⟩
  · rw [hread]
    exact .nil _
  · rw [hread]
    refine .singleton (h ?_) List.suffix_rfl
    rintro ⟨d, t, rfl, rfl⟩
    exact hnext rfl

theorem grounded_bracedCodePoint (s : List Char) :
    Grounded ('\\' :: 'u' :: '{' :: s) (bracedCodePoint s).notices := by
  have hstop := not_beginsWith_dropWhile Numeral.isHexDigit s
  have hsplit := List.takeWhile_append_dropWhile (p := Numeral.isHexDigit) (l := s)
  cases hempty : (s.takeWhile Numeral.isHexDigit).isEmpty with
  | true =>
      simp only [bracedCodePoint, hempty, if_true]
      exact .singleton (.codePointWithoutDigits (not_beginsWith_of_isEmpty hempty)) List.suffix_rfl
  | false =>
      have hds := digits_takeWhile hempty
      have hclose := grounded_expect fun hc => Grounds.unclosedCodePoint hds hstop hc
      simp only [bracedCodePoint, hempty, Numeral.value_eq_number 16 hds.2, Bool.false_eq_true,
        if_false]
      rw [List.cons_append, List.cons_append, List.cons_append, hsplit] at hclose
      split
      · exact hclose
      · next hlarge =>
          have hground := Grounds.codePointTooLarge hds hstop (Nat.not_le.mp hlarge)
          rw [hsplit] at hground
          exact .cons hground List.suffix_rfl hclose

theorem grounded_unbracedCodePoint (h : ¬ BeginsWith (· = '{') s) :
    Grounded ('\\' :: 'u' :: s) (unbracedCodePoint s).notices := by
  rcases hfour : fourHexDigits? s with _ | ⟨lead, t⟩
  · simp only [unbracedCodePoint, hfour]
    refine .singleton (.badUnicodeEscape h ?_) List.suffix_rfl
    rintro ⟨ds, t, hds, rfl⟩
    rw [fourHexDigits?_append hds] at hfour
    cases hfour
  · simp only [unbracedCodePoint, hfour]
    split
    · split <;> exact .nil _
    · exact .nil _

theorem grounded_unicodeEscape (s : List Char) :
    Grounded ('\\' :: 'u' :: s) (unicodeEscape s).notices := by
  unfold unicodeEscape
  split
  · exact grounded_bracedCodePoint _
  · next hbrace =>
      refine grounded_unbracedCodePoint ?_
      rintro ⟨c, t, heq, rfl⟩
      exact hbrace t heq

theorem grounded_propertyExpression {c : Char} (hc : c = 'p' ∨ c = 'P') (s : List Char) :
    Grounded ('\\' :: c :: s) (propertyExpression s).notices := by
  unfold propertyExpression
  split
  · next t =>
      have hstop : ¬ BeginsWith (fun d => d.isAlphanum = true ∨ d = '_' ∨ d = '=')
          (t.dropWhile isPropertyChar) := by
        simpa only [isPropertyChar_iff] using not_beginsWith_dropWhile isPropertyChar t
      have hclose := grounded_expect fun h =>
        Grounds.unclosedProperty hc (takeWhile_isPropertyChar t) hstop h
      rwa [List.cons_append, List.cons_append, List.cons_append,
        List.takeWhile_append_dropWhile] at hclose
  · next hbrace =>
      refine .singleton (.propertyWithoutBrace hc ?_) List.suffix_rfl
      rintro ⟨d, t, heq, rfl⟩
      exact hbrace t heq

theorem grounded_controlLetter (s : List Char) :
    Grounded ('\\' :: 'c' :: s) (controlLetter s).notices := by
  unfold controlLetter
  split
  · refine .singleton (.badControlLetter ?_) List.suffix_rfl
    rintro ⟨d, t, ⟨⟩, -⟩
  · split
    · exact .nil _
    · next hc =>
        refine .singleton (.badControlLetter ?_) List.suffix_rfl
        rintro ⟨d, t, heq, hd⟩
        obtain ⟨rfl, rfl⟩ := List.cons.inj heq
        exact hc hd

theorem grounded_hexEscape (s : List Char) :
    Grounded ('\\' :: 'x' :: s) (hexEscape s).notices := by
  unfold hexEscape
  split
  · split
    · exact .nil _
    · next hdigits =>
        refine .singleton (.badHexEscape ?_) List.suffix_rfl
        rintro ⟨a, b, t, heq, ha, hb⟩
        cases heq
        exact hdigits (by rw [ha, hb]; rfl)
  · next hshort =>
      refine .singleton (.badHexEscape ?_) List.suffix_rfl
      rintro ⟨a, b, t, heq, -, -⟩
      exact hshort a b t heq

theorem grounded_characterEscape (c : Char) (s : List Char) :
    Grounded ('\\' :: c :: s) (characterEscape c s).notices := by
  unfold characterEscape
  split
  · exact grounded_propertyExpression (Or.inl rfl) s
  · exact grounded_propertyExpression (Or.inr rfl) s
  · exact grounded_controlLetter s
  · exact grounded_hexEscape s
  · exact grounded_unicodeEscape s
  · exact .nil _

theorem grounded_classEscape (s : List Char) :
    Grounded ('\\' :: s) (classEscape s).notices := by
  unfold classEscape
  split
  · exact .singleton .bareBackslashInClass List.suffix_rfl
  · exact grounded_characterEscape _ _

theorem grounded_classMembers (s : List Char) : Grounded s (classMembers s).notices := by
  fun_induction classMembers s with
  | case1 => exact .singleton .unclosedClass List.suffix_rfl
  | case2 s => exact .nil _
  | case3 s escape members _ ih =>
      have hrest := (classEscape_rest s).trans (List.suffix_cons '\\' s)
      exact (grounded_classEscape s).append (ih.behind hrest)
  | case4 c s _ _ ih => exact ih.behind (List.suffix_cons _ _)

theorem grounded_characterClass (s : List Char) : Grounded s (characterClass s).notices :=
  (grounded_classMembers _).behind (Lexeme.skipOptional_suffix _ s)

/-- The letters among the hexadecimal digits. -/
theorem isAlpha_of_hexLetter {c : Char} (h : 'a' ≤ c ∧ c ≤ 'f' ∨ 'A' ≤ c ∧ c ≤ 'F') :
    c.isAlpha = true := by
  have hf : 'f' ≤ 'z' := by decide
  have hF : 'F' ≤ 'Z' := by decide
  rcases h with h | h
  · have hlower : c.isLower = true :=
      Bool.and_eq_true_iff.mpr ⟨decide_eq_true h.1, decide_eq_true (Char.le_trans h.2 hf)⟩
    exact Bool.or_eq_true_iff.mpr (Or.inr hlower)
  · have hupper : c.isUpper = true :=
      decide_eq_true (p := c.val ≥ 'A'.val ∧ c.val ≤ 'Z'.val) ⟨h.1, Char.le_trans h.2 hF⟩
    exact Bool.or_eq_true_iff.mpr (Or.inl hupper)

theorem inName_of_isHexDigit {c : Char} (h : Numeral.isHexDigit c = true) : InName c := by
  refine Or.inl ?_
  simp only [Numeral.isHexDigit, Bool.or_eq_true, Bool.and_eq_true, decide_eq_true_eq,
    or_assoc] at h
  rcases h with h | h
  · simp [Identifier.isPart, Unicode.isNumber_of_isDigit h]
  · have halphabetic := Unicode.isAlphabetic_of_isAlpha (isAlpha_of_hexLetter h)
    exact Identifier.isPart_of_isStart (by simp [Identifier.isStart, halphabetic])

/-- From one text on to the other there are only characters of names. -/
def NamePassed (s t : List Char) : Prop :=
  ∃ u, s = u ++ t ∧ ∀ d ∈ u, InName d

namespace NamePassed

variable {s t r : List Char}

theorem refl (s : List Char) : NamePassed s s :=
  ⟨[], rfl, by rintro d ⟨⟩⟩

theorem trans (h : NamePassed s t) (h' : NamePassed t r) : NamePassed s r := by
  obtain ⟨u, rfl, hu⟩ := h
  obtain ⟨v, rfl, hv⟩ := h'
  exact ⟨u ++ v, (List.append_assoc u v r).symm, List.forall_mem_append.mpr ⟨hu, hv⟩⟩

theorem cons {c : Char} (hc : InName c) (h : NamePassed s t) : NamePassed (c :: s) t := by
  obtain ⟨u, rfl, hu⟩ := h
  exact ⟨c :: u, rfl, List.forall_mem_cons.mpr ⟨hc, hu⟩⟩

theorem run {accept : Char → Bool} (h : ∀ c, accept c = true → InName c) (s : List Char) :
    NamePassed s (s.dropWhile accept) :=
  ⟨s.takeWhile accept, List.takeWhile_append_dropWhile.symm,
    fun d hd => h d (List.all_eq_true.mp List.all_takeWhile d hd)⟩

end NamePassed

theorem namePassed_brace (s : List Char) : NamePassed s (Lexeme.skipOptional '}' s) := by
  rcases Lexeme.skipOptional_cases '}' s with ⟨t, rfl, hskip⟩ | ⟨-, hskip⟩
  · rw [hskip]
    exact .cons (Or.inr (by decide)) (.refl t)
  · rw [hskip]
    exact .refl s

theorem namePassed_fourHexDigits {ds : List Char} (h : FourHexDigits ds) (s : List Char) :
    NamePassed (ds ++ s) s :=
  ⟨ds, rfl, fun d hd => inName_of_isHexDigit (h.2 d hd)⟩

/-- What is read as an escape is text of a name, well formed or not. -/
theorem namePassed_unicodeEscape (s : List Char) : NamePassed s (unicodeEscape s).rest := by
  unfold unicodeEscape
  split
  · next t =>
      have hbrace : InName '{' := Or.inr (by decide)
      have hdigits := NamePassed.run (fun _ => inName_of_isHexDigit) t
      refine .cons hbrace ?_
      unfold bracedCodePoint
      dsimp only
      split
      · exact namePassed_brace t
      · have hclose := hdigits.trans (namePassed_brace _)
        split <;>
          simpa only [Lexeme.expect_rest_eq] using hclose
  · rcases hfour : fourHexDigits? s with _ | ⟨lead, t⟩
    · simp only [unbracedCodePoint, hfour]
      exact .refl s
    · obtain ⟨ds, hds, rfl, -⟩ := exists_of_fourHexDigits? hfour
      have hlead := namePassed_fourHexDigits hds t
      simp only [unbracedCodePoint, hfour]
      split
      · split
        · next htrail =>
            obtain ⟨es, hes, rfl, -⟩ := exists_of_trailEscape? htrail
            refine hlead.trans (.cons (Or.inr (by decide)) (.cons (Or.inl (by decide +kernel)) ?_))
            exact namePassed_fourHexDigits hes _
        · exact hlead
      · exact hlead

theorem namePassed_nameChar {accept : Char → Bool}
    (haccept : ∀ c, accept c = true → Identifier.isPart c = true) (s : List Char) :
    NamePassed s (nameChar accept s).rest := by
  unfold nameChar
  split
  · next t =>
      have hescape : NamePassed ('\\' :: 'u' :: t) (unicodeEscape t).rest :=
        .cons (Or.inr (by decide)) (.cons (Or.inl (by decide +kernel)) (namePassed_unicodeEscape t))
      dsimp only
      split
      · exact hescape
      · split <;> exact hescape
  · split
    · next hc => exact .cons (Or.inl (haccept _ hc)) (.refl _)
    · exact .refl _
  · exact .refl []

/-- An escape that has a number is one for that number. -/
theorem namesNumber_of_value {s : List Char} {n : Nat} (h : (unicodeEscape s).value = some n) :
    ∃ u, NamesNumber ('\\' :: 'u' :: u) n ∧ s = u ++ (unicodeEscape s).rest := by
  rcases unicodeEscape_recognised (unicodeEscape_notices s h) with
    ⟨u, m, hu, hs, hm⟩ | ⟨ds, es, hds, hes, hlead, htrail, hs, hm⟩
  · obtain rfl := Option.some.inj (hm.symm.trans h)
    exact ⟨u, .escape hu, hs⟩
  · obtain rfl := Option.some.inj (hm.symm.trans h)
    exact ⟨ds ++ '\\' :: 'u' :: es, .pair hds hes hlead htrail, by simpa using hs⟩

/-- Where a character of a name may be, only escapes are noted. -/
theorem grounded_nameChar {accept : Char → Bool} {w : List Char}
    (h : ∀ e r n, NamesNumber e n → (∀ d : Char, d.toNat = n → accept d = false) →
      Grounds .badGroupNameEscape w (e ++ r)) (s : List Char) :
    Grounded (w ++ s) (nameChar accept s).notices := by
  unfold nameChar
  split
  · next t =>
      have hescape := (grounded_unicodeEscape t).behind (List.suffix_append w ('\\' :: 'u' :: t))
      dsimp only
      split
      · exact hescape
      · next n hn =>
          split
          · exact hescape
          · next hnone =>
              obtain ⟨u, hu, ht⟩ := namesNumber_of_value hn
              have hbad (d : Char) (hd : d.toNat = n) : accept d = false := by
                rw [CodePoint.toChar?_eq_some_iff.mpr hd] at hnone
                simpa using hnone
              have hground := h _ (unicodeEscape t).rest n hu hbad
              rw [List.cons_append, List.cons_append, ← ht] at hground
              exact hescape.append (.singleton hground List.suffix_rfl)
  · split <;> exact .nil _
  · exact .nil _

/-- Where a name ends, neither an escape nor a character that the name may hold follows. -/
theorem nameChar_absent {accept : Char → Bool} {s : List Char}
    (h : (nameChar accept s).value = .absent) :
    nameChar accept s = ⟨.absent, s, []⟩ ∧ ¬ ['\\', 'u'] <+: s ∧
      ¬ BeginsWith (accept · = true) s := by
  unfold nameChar at h ⊢
  split at h
  · dsimp only at h
    split at h
    · cases h
    · split at h <;> cases h
  · next c t hescape =>
      split at h
      · cases h
      · next hc =>
          refine ⟨by rw [if_neg hc], ?_, ?_⟩
          · rintro ⟨u, hu⟩
            cases hu
            exact hescape u rfl rfl
          · rintro ⟨d, u, heq, hd⟩
            cases heq
            exact hc hd
  · refine ⟨rfl, ?_, ?_⟩
    · rintro ⟨u, ⟨⟩⟩
    · rintro ⟨d, u, ⟨⟩, -⟩

theorem not_isPart_of_nameTail (s : List Char) :
    ¬ ['\\', 'u'] <+: (nameTail s).rest ∧
      ¬ BeginsWith (Identifier.isPart · = true) (nameTail s).rest := by
  fun_induction nameTail s with
  | case1 s first habsent =>
      obtain ⟨hfirst, hend⟩ := nameChar_absent habsent
      have hrest : first.rest = s := congrArg Lexeme.rest hfirst
      rwa [hrest]
  | case2 s first _ _ tail ih => exact ih

section Names

variable {o u : List Char}

theorem badGroupNameEscape_first (ho : o ∈ nameOpenings) (e r : List Char) (n : Nat)
    (he : NamesNumber e n) (hbad : ∀ d : Char, d.toNat = n → Identifier.isStart d = false) :
    Grounds .badGroupNameEscape o (e ++ r) := by
  have hground := Grounds.badGroupNameEscape (u := []) (r := r) ho (by rintro d ⟨⟩) he
    (by simpa using hbad)
  rwa [List.append_nil] at hground

theorem badGroupNameEscape_later (ho : o ∈ nameOpenings) (hne : u ≠ []) (hu : ∀ d ∈ u, InName d)
    (e r : List Char) (n : Nat) (he : NamesNumber e n)
    (hbad : ∀ d : Char, d.toNat = n → Identifier.isPart d = false) :
    Grounds .badGroupNameEscape (o ++ u) (e ++ r) :=
  .badGroupNameEscape ho hu he (by simpa [hne] using hbad)

/-- Behind the first character of a name, with what has been read of the name so far in front. -/
theorem grounded_nameTail (ho : o ∈ nameOpenings) (s : List Char) :
    ∀ u : List Char, u ≠ [] → (∀ d ∈ u, InName d) →
      NamePassed s (nameTail s).rest ∧ Grounded (o ++ u ++ s) (nameTail s).notices := by
  fun_induction nameTail s with
  | case1 s first habsent =>
      intro u hne hu
      exact ⟨namePassed_nameChar (fun _ h => h) s,
        grounded_nameChar (badGroupNameEscape_later ho hne hu) s⟩
  | case2 s first hpresent _ tail ih =>
      intro u hne hu
      have hgrounded := grounded_nameChar (badGroupNameEscape_later ho hne hu) s
      obtain ⟨v, hs, hv⟩ : NamePassed s first.rest := namePassed_nameChar (fun _ h => h) s
      have hboth : ∀ d ∈ u ++ v, InName d := List.forall_mem_append.mpr ⟨hu, hv⟩
      have hne' : u ++ v ≠ [] := fun hnil => hne (List.append_eq_nil_iff.mp hnil).1
      obtain ⟨hpassed, htail⟩ := ih (u ++ v) hne' hboth
      have htext : o ++ (u ++ v) ++ first.rest = o ++ u ++ s := by
        rw [← List.append_assoc o, List.append_assoc (o ++ u), ← hs]
      rw [htext] at htail
      exact ⟨.trans ⟨v, hs, hv⟩ hpassed, hgrounded.append htail⟩

theorem grounded_nameToEnd (ho : o ∈ nameOpenings) (s : List Char) :
    Grounded (o ++ s) (nameToEnd s).notices := by
  have hfirst := grounded_nameChar (badGroupNameEscape_first ho) s
  by_cases habsent : (nameChar Identifier.isStart s).value = .absent
  · obtain ⟨hread, hescape, hstart⟩ := nameChar_absent habsent
    have hempty := Grounds.emptyGroupName ho hstart hescape
    simp only [nameToEnd, if_pos habsent]
    rw [hread]
    exact .singleton hempty List.suffix_rfl
  · obtain ⟨v, hs, hv⟩ := namePassed_nameChar (fun _ => Identifier.isPart_of_isStart) s
    have hlt := nameChar_rest_lt habsent
    have hne : v ≠ [] := by
      rintro rfl
      rw [List.nil_append] at hs
      rw [← hs] at hlt
      exact Nat.lt_irrefl _ hlt
    obtain ⟨⟨t, ht, hmore⟩, htail⟩ :=
      grounded_nameTail ho (nameChar Identifier.isStart s).rest v hne hv
    obtain ⟨hescape, hpart⟩ := not_isPart_of_nameTail (nameChar Identifier.isStart s).rest
    have hclose := grounded_expect fun h => Grounds.unclosedGroupName ho
      (fun hnil => hne (List.append_eq_nil_iff.mp hnil).1)
      (List.forall_mem_append.mpr ⟨hv, hmore⟩) hpart hescape h
    rw [List.append_assoc o, ← hs] at htail
    rw [List.append_assoc o, List.append_assoc v, ← ht, ← hs] at hclose
    simp only [nameToEnd, if_neg habsent]
    exact (hfirst.append htail).append hclose

end Names

/-- A name between angle brackets, behind what has to stand before it. -/
theorem grounded_groupName {w : List Char} (ho : w ++ ['<'] ∈ nameOpenings)
    (h : ¬ BeginsWith (· = '<') s → Grounds .groupNameWithoutOpening w s) :
    Grounded (w ++ s) (groupName s).notices := by
  unfold groupName
  split
  · next t =>
      have hname := grounded_nameToEnd ho t
      rwa [List.append_assoc] at hname
  · next hopening =>
      refine .singleton (h ?_) List.suffix_rfl
      rintro ⟨c, t, heq, rfl⟩
      exact hopening t heq

/-- A group begins with its name, a colon, or neither, but not like a lookaround. -/
theorem grounded_groupOpening (h : Opening.of ('(' :: s) = .group s) :
    Grounded ('(' :: s) (groupOpening s).notices := by
  unfold groupOpening
  split
  · exact .nil _
  · next t hcolon =>
      have hname : Grounded (['(', '?'] ++ t) (groupName t).notices := by
        refine grounded_groupName (by decide) fun hopening => .groupWithoutName ?_
        rintro ⟨c, u, rfl, hc⟩
        simp only [List.mem_cons, List.not_mem_nil, or_false] at hc
        rcases hc with rfl | rfl | rfl | rfl
        · exact hopening ⟨'<', u, rfl, rfl⟩
        · exact hcolon u rfl
        · cases h
        · cases h
      exact hname
  · exact .nil _

theorem grounded_atomEscape (s : List Char) :
    Grounded ('\\' :: s) (atomEscape s).notices := by
  unfold atomEscape
  split
  · exact .singleton .bareBackslash List.suffix_rfl
  · next c t =>
      split
      · exact .nil _
      · split
        · next hk =>
            have hname := grounded_groupName (w := ['\\', 'k']) (by decide) (s := t)
              .referenceWithoutName
            rw [hk]
            exact hname
        · exact grounded_characterEscape c t

theorem not_beginsWith_or {p q : Char → Prop} (hp : ¬ BeginsWith p s) (hq : ¬ BeginsWith q s) :
    ¬ BeginsWith (fun c => p c ∨ q c) s := by
  rintro ⟨c, t, heq, hc | hc⟩
  · exact hp ⟨c, t, heq, hc⟩
  · exact hq ⟨c, t, heq, hc⟩

/-- Behind its first number a counted quantifier goes on with a comma and digits, or it does not. -/
theorem greatestCount_cases (least : Nat) (s : List Char) :
    (¬ BeginsWith (· = ',') s ∧ greatestCount least s = ⟨least, s, []⟩) ∨
      ∃ es t, s = ',' :: (es ++ t) ∧ (∀ e ∈ es, e.isDigit = true) ∧
        ¬ BeginsWith (·.isDigit = true) t ∧
        greatestCount least s =
          ⟨if es.isEmpty then Quantifier.maxCount else Quantifier.count es, t, []⟩ := by
  unfold greatestCount
  split
  · next t =>
      refine Or.inr ⟨t.takeWhile Char.isDigit, t.dropWhile Char.isDigit, ?_, ?_, ?_, rfl⟩
      · rw [List.takeWhile_append_dropWhile]
      · exact List.all_eq_true.mp List.all_takeWhile
      · exact not_beginsWith_dropWhile Char.isDigit t
  · next hcomma =>
      refine Or.inl ⟨?_, rfl⟩
      rintro ⟨c, t, heq, rfl⟩
      exact hcomma t heq

/-- Only a number that stands there is too small as the greatest count. -/
theorem digits_of_count_lt {ds es : List Char} (hes : ∀ e ∈ es, e.isDigit = true)
    (h : (if es.isEmpty then Quantifier.maxCount else Quantifier.count es) < countOf ds) :
    Digits Char.isDigit es ∧ countOf es < countOf ds := by
  have hmax := countOf_le_maxCount ds
  split at h
  · omega
  · next hne =>
      have hdigits : Digits Char.isDigit es := ⟨fun hnil => hne (List.isEmpty_iff.mpr hnil), hes⟩
      exact ⟨hdigits, count_eq_countOf hdigits ▸ h⟩

theorem grounded_countedQuantifier (s : List Char) :
    Grounded ('{' :: s) (countedQuantifier s).notices := by
  have hstop := not_beginsWith_dropWhile Char.isDigit s
  have hsplit := List.takeWhile_append_dropWhile (p := Char.isDigit) (l := s)
  cases hempty : (s.takeWhile Char.isDigit).isEmpty with
  | true =>
      simp only [countedQuantifier, hempty, if_true]
      exact .singleton (.quantifierWithoutDigits (not_beginsWith_of_isEmpty hempty))
        List.suffix_rfl
  | false =>
      have hds := digits_takeWhile hempty
      simp only [countedQuantifier, hempty, count_eq_countOf hds, Bool.false_eq_true, if_false]
      generalize s.takeWhile Char.isDigit = ds at hsplit hds ⊢
      generalize s.dropWhile Char.isDigit = t at hsplit hstop ⊢
      rw [← hsplit]
      rcases greatestCount_cases (countOf ds) t with
        ⟨hcomma, hread⟩ | ⟨es, v, rfl, hes, hv, hread⟩
      · rw [hread]
        split
        · simp only [Nat.lt_irrefl, if_false]
          exact .nil _
        · exact grounded_expect fun h => .unclosedLeast hds (not_beginsWith_or hstop hcomma) h
      · rw [hread]
        generalize hgreatest : (if es.isEmpty then Quantifier.maxCount else
          Quantifier.count es) = greatest
        split
        · next hclosed =>
            have hclose := eq_cons_of_expect hclosed
            dsimp only
            split
            · next hlt =>
                obtain ⟨hes, horder⟩ := digits_of_count_lt hes (hgreatest ▸ hlt)
                have hground := Grounds.quantifierOutOfOrder
                  (r := (Lexeme.expect '}' .unclosedQuantifier v).rest) hds hes horder
                rw [← hclose] at hground
                exact .singleton hground List.suffix_rfl
            · exact .nil _
        · have hopen := grounded_expect fun h => Grounds.unclosedGreatest hds hes hv h
          rwa [List.cons_append, List.append_assoc, List.cons_append] at hopen

theorem grounded_quantifier (s : List Char) : Grounded s (quantifier s).notices := by
  have hbare : Grounded s (bareQuantifier s).notices := by
    unfold bareQuantifier
    split
    · exact .nil _
    · exact .nil _
    · exact .nil _
    · exact grounded_countedQuantifier _
    · exact .nil _
  unfold quantifier
  dsimp only
  split <;> exact hbare

end Tokens

end NamedCaptures.Problem
