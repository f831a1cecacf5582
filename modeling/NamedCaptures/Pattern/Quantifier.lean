import NamedCaptures.Lexeme
import NamedCaptures.Numeral

/-!
# Quantifiers

How often an atom may be repeated. Counts above the greatest one stand for it. A question mark
after a quantifier makes it lazy, which matters to no group; a malformed quantifier takes none.
-/

namespace NamedCaptures.Pattern

/-- The least and the greatest number of repetitions. -/
structure Quantifier where
  least : Nat
  greatest : Nat
  deriving DecidableEq, Repr

namespace Quantifier

/-- The greatest count. -/
def maxCount : Nat := UInt64.size - 1

/-- The count that a run of decimal digits stands for. -/
def count (digits : List Char) : Nat :=
  min (Numeral.value 10 digits) maxCount

/-- Whether the quantifier allows no repetition at all. -/
def allowsNone (q : Quantifier) : Bool :=
  q.least == 0

end Quantifier

/-- The characters that begin a quantifier. -/
def isQuantifierStart (c : Char) : Bool :=
  c == '*' || c == '+' || c == '?' || c == '{'

/-- Reads the part of a counted quantifier from after its first number on, without the closing
brace: the greatest count, which is the least one if there is no comma, and unbounded if no number
follows the comma. -/
def greatestCount (least : Nat) : List Char → Lexeme Nat
  | ',' :: s =>
      let digits := s.takeWhile Char.isDigit
      ⟨if digits.isEmpty then Quantifier.maxCount else Quantifier.count digits,
        s.dropWhile Char.isDigit, []⟩
  | s => ⟨least, s, []⟩

/-- Reads a counted quantifier after its opening brace. -/
def countedQuantifier (s : List Char) : Lexeme (Option Quantifier) :=
  let digits := s.takeWhile Char.isDigit
  if digits.isEmpty then
    ⟨none, Lexeme.skipOptional '}' (s.dropWhile fun c => c == ',' || c.isDigit),
      [⟨.quantifierWithoutDigits, s⟩]⟩
  else
    let least := Quantifier.count digits
    let greatest := greatestCount least (s.dropWhile Char.isDigit)
    let closing := Lexeme.expect '}' .unclosedQuantifier greatest.rest
    if closing.value then
      ⟨some ⟨least, greatest.value⟩, closing.rest,
        if greatest.value < least then [⟨.quantifierOutOfOrder, '{' :: s⟩] else []⟩
    else ⟨none, closing.rest, closing.notices⟩

/-- Reads a quantifier without a mark for laziness. There is no value where none stands or where
it is malformed. -/
def bareQuantifier : List Char → Lexeme (Option Quantifier)
  | '+' :: s => ⟨some ⟨1, Quantifier.maxCount⟩, s, []⟩
  | '*' :: s => ⟨some ⟨0, Quantifier.maxCount⟩, s, []⟩
  | '?' :: s => ⟨some ⟨0, 1⟩, s, []⟩
  | '{' :: s => countedQuantifier s
  | s => ⟨none, s, []⟩

/-- Reads a quantifier, with the mark for laziness if it has one. -/
def quantifier (s : List Char) : Lexeme (Option Quantifier) :=
  let bare := bareQuantifier s
  if bare.value.isSome then { bare with rest := Lexeme.skipOptional '?' bare.rest } else bare

theorem greatestCount_rest (least : Nat) (s : List Char) :
    (greatestCount least s).rest <:+ s := by
  unfold greatestCount
  split
  · exact (List.dropWhile_suffix _).trans (List.suffix_cons _ _)
  · exact List.suffix_rfl

theorem countedQuantifier_rest (s : List Char) : (countedQuantifier s).rest <:+ s := by
  unfold countedQuantifier
  dsimp only
  split
  · exact (Lexeme.skipOptional_suffix _ _).trans (List.dropWhile_suffix _)
  · have h := (Lexeme.expect_rest '}' .unclosedQuantifier _).trans
      ((greatestCount_rest (Quantifier.count (s.takeWhile Char.isDigit))
        (s.dropWhile Char.isDigit)).trans (List.dropWhile_suffix _))
    split <;> exact h

theorem bareQuantifier_rest (s : List Char) : (bareQuantifier s).rest <:+ s := by
  unfold bareQuantifier
  split
  · exact List.suffix_cons _ _
  · exact List.suffix_cons _ _
  · exact List.suffix_cons _ _
  · exact (countedQuantifier_rest _).trans (List.suffix_cons _ _)
  · exact List.suffix_rfl

theorem quantifier_rest (s : List Char) : (quantifier s).rest <:+ s := by
  unfold quantifier
  dsimp only
  split
  · exact (Lexeme.skipOptional_suffix _ _).trans (bareQuantifier_rest s)
  · exact bareQuantifier_rest s

/-- Where a quantifier begins, well formed or not, the text gets shorter. -/
theorem quantifier_rest_cons {c : Char} (h : isQuantifierStart c = true) (s : List Char) :
    (quantifier (c :: s)).rest <:+ s := by
  have hbare : (bareQuantifier (c :: s)).rest <:+ s := by
    simp only [isQuantifierStart, Bool.or_eq_true, beq_iff_eq] at h
    rcases h with ((rfl | rfl) | rfl) | rfl
    · exact List.suffix_rfl
    · exact List.suffix_rfl
    · exact List.suffix_rfl
    · exact countedQuantifier_rest s
  unfold quantifier
  dsimp only
  split
  · exact (Lexeme.skipOptional_suffix _ _).trans hbare
  · exact hbare

end NamedCaptures.Pattern
