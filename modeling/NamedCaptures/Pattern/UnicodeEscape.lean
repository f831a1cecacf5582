import NamedCaptures.CodePoint
import NamedCaptures.Lexeme
import NamedCaptures.Numeral

/-!
# Unicode escapes

The part of a Unicode escape after its letter `u`: a code point in braces, or four hexadecimal
digits. Four digits that are a lead surrogate form one code point with a second escape of four
digits that is a trail surrogate and follows at once.
-/

namespace NamedCaptures.Pattern

/-- The value of four hexadecimal digits at the front of a text, and what follows them. -/
def fourHexDigits? : List Char → Option (Nat × List Char)
  | a :: b :: c :: d :: s =>
      if [a, b, c, d].all Numeral.isHexDigit then some (Numeral.value 16 [a, b, c, d], s) else none
  | _ => none

/-- The value of a whole escape of four digits at the front of a text, if it is a trail surrogate,
and what follows it. -/
def trailEscape? : List Char → Option (Nat × List Char)
  | '\\' :: 'u' :: s => (fourHexDigits? s).filter fun q => CodePoint.isTrailSurrogate q.1
  | _ => none

/-- Reads a code point in braces, after the opening one. The value is there if it is in range and
the closing brace follows. -/
def bracedCodePoint (s : List Char) : Lexeme (Option Nat) :=
  let digits := s.takeWhile Numeral.isHexDigit
  if digits.isEmpty then
    ⟨none, Lexeme.skipOptional '}' s, [⟨.codePointWithoutDigits, s⟩]⟩
  else
    let value := Numeral.value 16 digits
    let closing :=
      Lexeme.expect '}' .unclosedCodePoint (s.dropWhile Numeral.isHexDigit)
    if value ≤ CodePoint.last then
      ⟨if closing.value then some value else none, closing.rest, closing.notices⟩
    else
      ⟨none, closing.rest, ⟨.codePointTooLarge, s⟩ :: closing.notices⟩

/-- Reads the number of four hexadecimal digits, or of two escapes that are a surrogate pair. -/
def unbracedCodePoint (s : List Char) : Lexeme (Option Nat) :=
  match fourHexDigits? s with
  | none => ⟨none, s, [⟨.badUnicodeEscape, s⟩]⟩
  | some (lead, t) =>
      if CodePoint.isLeadSurrogate lead then
        match trailEscape? t with
        | some (trail, u) => ⟨some (CodePoint.ofSurrogates lead trail), u, []⟩
        | none => ⟨some lead, t, []⟩
      else ⟨some lead, t, []⟩

/-- Reads a Unicode escape after its letter `u`. -/
def unicodeEscape : List Char → Lexeme (Option Nat)
  | '{' :: s => bracedCodePoint s
  | s => unbracedCodePoint s

theorem fourHexDigits?_suffix {s t : List Char} {n : Nat} (h : fourHexDigits? s = some (n, t)) :
    t <:+ s := by
  unfold fourHexDigits? at h
  split at h
  · next a b c d u =>
      split at h
      · cases h
        exact ⟨[a, b, c, d], rfl⟩
      · cases h
  · cases h

theorem trailEscape?_suffix {s t : List Char} {n : Nat} (h : trailEscape? s = some (n, t)) :
    t <:+ s := by
  unfold trailEscape? at h
  split at h
  · next u =>
      have := fourHexDigits?_suffix (Option.filter_eq_some_iff.mp h).1
      exact this.trans ((List.suffix_cons _ _).trans (List.suffix_cons _ _))
  · cases h

theorem bracedCodePoint_rest (s : List Char) : (bracedCodePoint s).rest <:+ s := by
  have hclose := (Lexeme.expect_rest '}' .unclosedCodePoint
    (s.dropWhile Numeral.isHexDigit)).trans (List.dropWhile_suffix _)
  unfold bracedCodePoint
  dsimp only
  split
  · exact Lexeme.skipOptional_suffix _ _
  · split <;> exact hclose

theorem unbracedCodePoint_rest (s : List Char) : (unbracedCodePoint s).rest <:+ s := by
  unfold unbracedCodePoint
  split
  · exact List.suffix_rfl
  · next hlead =>
      have hl := fourHexDigits?_suffix hlead
      split
      · split
        · next htrail => exact (trailEscape?_suffix htrail).trans hl
        · exact hl
      · exact hl

theorem unicodeEscape_rest (s : List Char) : (unicodeEscape s).rest <:+ s := by
  unfold unicodeEscape
  split
  · exact (bracedCodePoint_rest _).trans (List.suffix_cons _ _)
  · exact unbracedCodePoint_rest s

end NamedCaptures.Pattern
