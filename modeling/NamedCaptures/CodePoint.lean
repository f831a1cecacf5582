/-!
# Code points

Numbers as code points: the two surrogate halves, the code point that a pair of them stands for,
and the character of a number that is one.
-/

namespace NamedCaptures.CodePoint

/-- The last code point. -/
def last : Nat := 0x10FFFF

/-- A number that can only be the first half of a surrogate pair. -/
def isLeadSurrogate (n : Nat) : Bool :=
  0xD800 ≤ n && n ≤ 0xDBFF

/-- A number that can only be the second half of a surrogate pair. -/
def isTrailSurrogate (n : Nat) : Bool :=
  0xDC00 ≤ n && n ≤ 0xDFFF

/-- The code point that a lead and a trail surrogate stand for together. -/
def ofSurrogates (lead trail : Nat) : Nat :=
  0x10000 + (lead - 0xD800) * 0x400 + (trail - 0xDC00)

/-- The character of a number, if the number is a code point and not a surrogate. -/
def toChar? (n : Nat) : Option Char :=
  if h : n.isValidChar then some (Char.ofNatAux n h) else none

/-- A number has a character exactly when it is that character's code point. -/
theorem toChar?_eq_some_iff {n : Nat} {c : Char} : toChar? n = some c ↔ c.toNat = n := by
  by_cases h : n.isValidChar
  · rw [toChar?, dif_pos h]
    constructor
    · intro hc
      cases hc
      rfl
    · intro hc
      subst hc
      rfl
  · rw [toChar?, dif_neg h]
    constructor
    · intro hc
      cases hc
    · intro hc
      subst hc
      exact absurd c.valid h

/-- A surrogate pair stands for a code point beyond the first plane. -/
theorem ofSurrogates_bounds {lead trail : Nat} (hl : isLeadSurrogate lead = true)
    (ht : isTrailSurrogate trail = true) :
    0x10000 ≤ ofSurrogates lead trail ∧ ofSurrogates lead trail ≤ last := by
  unfold isLeadSurrogate at hl
  unfold isTrailSurrogate at ht
  rw [Bool.and_eq_true, decide_eq_true_eq, decide_eq_true_eq] at hl ht
  unfold ofSurrogates last
  omega

end NamedCaptures.CodePoint
