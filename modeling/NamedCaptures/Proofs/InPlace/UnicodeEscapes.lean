import NamedCaptures.Proofs.Grammar.TokenRecognition
import NamedCaptures.Proofs.InPlace.KeptLevels

/-!
# Unicode escapes in place

A Unicode escape is read as the number that its digits stand for, without a bound on how many they
are: the run in place stops counting at a greatest value, and that value is already too large for a
code point. Two escapes of four digits are read as one if they are the surrogates of a code point.
An escape has no number exactly when something is noted. The main statement is
`unicodeEscape_decodes`.
-/

namespace NamedCaptures

/-- The lead and the trail surrogate of a code point behind the first plane, as in UTF-16. -/
def CodePoint.surrogates (n : Nat) : Nat × Nat :=
  (0xD800 + (n - 0x10000) / 0x400, 0xDC00 + (n - 0x10000) % 0x400)

/-- The surrogates of the code point of a pair are that pair. -/
theorem CodePoint.surrogates_ofSurrogates {lead trail : Nat} (hl : isLeadSurrogate lead = true)
    (ht : isTrailSurrogate trail = true) :
    surrogates (ofSurrogates lead trail) = (lead, trail) := by
  unfold isLeadSurrogate at hl
  unfold isTrailSurrogate at ht
  rw [Bool.and_eq_true, decide_eq_true_eq, decide_eq_true_eq] at hl ht
  unfold surrogates ofSurrogates
  rw [Prod.mk.injEq]
  omega

namespace InPlace

open Grammar

variable {s ds es t : List Char}

/-- Whether the digits are a lead surrogate, and the text behind them begins with an escape of four
digits for a trail surrogate. -/
def BeginsPair (ds t : List Char) : Prop :=
  CodePoint.isLeadSurrogate (Numeral.number 16 ds) = true ∧
    ∃ es u, t = '\\' :: 'u' :: (es ++ u) ∧ FourHexDigits es ∧
      CodePoint.isTrailSurrogate (Numeral.number 16 es) = true

/-- What is read of digits behind an opening brace, where `t` follows and begins with no digit. -/
structure DecodesBraced (ds t : List Char) (l : Lexeme (Option Nat)) : Prop where
  value : ∀ n, l.value = some n ↔ Numeral.number 16 ds = n ∧ n ≤ 0x10FFFF ∧ t.head? = some '}'
  rest : l.rest = if t.head? = some '}' then t.tail else t
  /-- What is wrong is noted before the first digit and behind the last one. -/
  notices : l.notices =
    (if 0x10FFFF < Numeral.number 16 ds then [⟨.codePointTooLarge, ds ++ t⟩] else []) ++
      if t.head? = some '}' then [] else [⟨.unclosedCodePoint, t⟩]

/-- What is read of a text behind the letter of a Unicode escape. -/
structure Decodes (s : List Char) (l : Lexeme (Option Nat)) : Prop where
  /-- In braces the whole run of digits counts. -/
  braced : ∀ ds t, s = '{' :: (ds ++ t) → Digits Numeral.isHexDigit ds →
    t.head?.any Numeral.isHexDigit = false → DecodesBraced ds t l
  /-- Four digits stand for a number by themselves. -/
  four : ∀ ds t, s = ds ++ t → FourHexDigits ds → ¬ BeginsPair ds t →
    l = ⟨some (Numeral.number 16 ds), t, []⟩
  /-- The digits of a surrogate pair stand for its code point together. -/
  pair : ∀ ds es t, s = ds ++ '\\' :: 'u' :: (es ++ t) → FourHexDigits ds → FourHexDigits es →
    CodePoint.isLeadSurrogate (Numeral.number 16 ds) = true →
    CodePoint.isTrailSurrogate (Numeral.number 16 es) = true →
      ∃ n, 0x10000 ≤ n ∧ n ≤ 0x10FFFF ∧
        CodePoint.surrogates n = (Numeral.number 16 ds, Numeral.number 16 es) ∧
        l = ⟨some n, t, []⟩
  /-- No other text has a number. -/
  other : (∀ ds t, Digits Numeral.isHexDigit ds → s ≠ '{' :: (ds ++ t)) →
    (∀ ds t, FourHexDigits ds → s ≠ ds ++ t) → l.value = none
  noted : l.value = none ↔ l.notices ≠ []

theorem decodesBraced_unicodeEscape (h : Digits Numeral.isHexDigit ds)
    (ht : t.head?.any Numeral.isHexDigit = false) :
    DecodesBraced ds t (Pattern.unicodeEscape ('{' :: (ds ++ t))) := by
  have htake := takeWhile_append_of_head h.2 ht
  have hdrop := dropWhile_append_of_head h.2 ht
  have hne : ds.isEmpty = false := List.isEmpty_eq_false_iff.mpr h.1
  have hvalue := Numeral.value_eq_number 16 h.2
  simp only [Pattern.unicodeEscape, Pattern.bracedCodePoint, htake, hdrop, hne, hvalue,
    CodePoint.last, Bool.false_eq_true, if_false]
  obtain hlarge | hle : 0x10FFFF < Numeral.number 16 ds ∨ Numeral.number 16 ds ≤ 0x10FFFF :=
    Nat.lt_or_ge _ _
  · rw [if_neg (Nat.not_le.mpr hlarge)]
    rcases Lexeme.expect_cases '}' .unclosedCodePoint t with ⟨u, rfl, hread⟩ | ⟨hopen, hread⟩
    · constructor <;> simp [hread, hlarge]
    · constructor <;> simp [hread, hlarge, hopen]
  · rw [if_pos hle]
    rcases Lexeme.expect_cases '}' .unclosedCodePoint t with ⟨u, rfl, hread⟩ | ⟨hopen, hread⟩
    · constructor <;> simp [hread, hle, Nat.not_lt.mpr hle]
    · constructor <;> simp [hread, hopen, Nat.not_lt.mpr hle]

theorem unicodeEscape_single (h : FourHexDigits ds) (hpair : ¬ BeginsPair ds t) :
    Pattern.unicodeEscape (ds ++ t) = ⟨some (Numeral.number 16 ds), t, []⟩ := by
  refine unicodeEscape_four h t ?_
  by_contra hboth
  obtain ⟨hlead, htrail⟩ := not_or.mp hboth
  obtain ⟨⟨n, u⟩, hu⟩ := Option.ne_none_iff_exists'.mp htrail
  obtain ⟨es, hes, rfl, rfl, htrail⟩ := exists_of_trailEscape? hu
  rw [Bool.not_eq_false] at hlead
  exact hpair ⟨hlead, es, u, rfl, hes, htrail⟩

theorem unicodeEscape_surrogates (hd : FourHexDigits ds) (he : FourHexDigits es)
    (hlead : CodePoint.isLeadSurrogate (Numeral.number 16 ds) = true)
    (htrail : CodePoint.isTrailSurrogate (Numeral.number 16 es) = true) (t : List Char) :
    ∃ n, 0x10000 ≤ n ∧ n ≤ 0x10FFFF ∧
      CodePoint.surrogates n = (Numeral.number 16 ds, Numeral.number 16 es) ∧
      Pattern.unicodeEscape (ds ++ '\\' :: 'u' :: (es ++ t)) = ⟨some n, t, []⟩ := by
  obtain ⟨hfirst, hlast⟩ := CodePoint.ofSurrogates_bounds hlead htrail
  have hsurrogates := CodePoint.surrogates_ofSurrogates hlead htrail
  have hread := unicodeEscape_pair hd hlead (trailEscape?_append he htrail t)
  exact ⟨_, hfirst, hlast, hsurrogates, hread⟩

/-- An escape with a number is one of the grammar, in braces or of four digits. -/
theorem unicodeEscape_value_eq_none
    (hbraced : ∀ ds t, Digits Numeral.isHexDigit ds → s ≠ '{' :: (ds ++ t))
    (hfour : ∀ ds t, FourHexDigits ds → s ≠ ds ++ t) :
    (Pattern.unicodeEscape s).value = none := by
  rw [Option.eq_none_iff_forall_ne_some]
  intro n hn
  rcases unicodeEscape_recognised (Pattern.unicodeEscape_notices s hn) with
    ⟨u, m, hu, hs, -⟩ | ⟨ds, es, hds, -, -, -, hs, -⟩
  · cases hu with
    | four hds => exact hfour u _ hds hs
    | @braced ds hds _ =>
        exact hbraced ds ('}' :: (Pattern.unicodeEscape s).rest) hds (hs.trans (by simp))
  · exact hfour ds _ hds hs

theorem unicodeEscape_value_eq_none_iff :
    (Pattern.unicodeEscape s).value = none ↔ (Pattern.unicodeEscape s).notices ≠ [] := by
  constructor
  · intro hvalue hnotices
    rcases unicodeEscape_recognised hnotices with ⟨_, n, -, -, hn⟩ | ⟨_, _, -, -, -, -, -, hn⟩
    · rw [hn] at hvalue
      cases hvalue
    · rw [hn] at hvalue
      cases hvalue
  · intro hnotices
    rw [Option.eq_none_iff_forall_ne_some]
    exact fun n hn => hnotices (Pattern.unicodeEscape_notices s hn)

theorem decodes_unicodeEscape (s : List Char) : Decodes s (Pattern.unicodeEscape s) where
  braced := by
    rintro ds t rfl hds ht
    exact decodesBraced_unicodeEscape hds ht
  four := by
    rintro ds t rfl hds hpair
    exact unicodeEscape_single hds hpair
  pair := by
    rintro ds es t rfl hds hes hlead htrail
    exact unicodeEscape_surrogates hds hes hlead htrail t
  other := unicodeEscape_value_eq_none
  noted := unicodeEscape_value_eq_none_iff

/-- From any state before the letter of a Unicode escape, the run comes to its end behind what is
read of the escape, and that is decoded exactly. -/
theorem unicodeEscape_decodes (m : State) (h : m.place.remaining = 'u' :: s) :
    Returns unicodeEscape m (Pattern.unicodeEscape s).value (m.behind (Pattern.unicodeEscape s)) ∧
      Decodes s (Pattern.unicodeEscape s) := by
  refine ⟨Reads.returns ?_, decodes_unicodeEscape s⟩
  rw [h]
  exact reads_unicodeEscape m.place.text s

/-- The digits stand for 65 more than a word of 32 bits can tell from 65. -/
theorem unicodeEscape_decodes_overlong :
    let s := ['{', '1', '0', '0', '0', '0', '0', '0', '4', '1', '}', 'z']
    let m : State := { place := ⟨['\\'], 'u' :: s⟩ }
    m.place.remaining = 'u' :: s ∧
      Returns unicodeEscape m none
        { m with
          place := ⟨"\\u\x7b100000041\x7d".toList, ['z']⟩
          problems := [⟨.codePointTooLarge, "\\u\x7b", "100000041\x7dz"⟩] } := by
  intro s m
  have h : m.place.remaining = 'u' :: s := rfl
  have hreturns := (unicodeEscape_decodes m h).1
  exact ⟨h, hreturns⟩

end InPlace

end NamedCaptures
