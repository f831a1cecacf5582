import NamedCaptures.Numeral
import Mathlib.Data.List.Induction
import Mathlib.Data.Nat.Digits.Defs

/-!
# The numbers of numerals

A numeral stands for a number by the places of its digits. Its value, which is computed from the
first digit on, is that number, whatever its length and however many zeros come first.
-/

namespace NamedCaptures.Numeral

variable {ds : List Char} {c : Char}

/-- The digits in the order of what they count. -/
def alphabet : List Char :=
  ['0', '1', '2', '3', '4', '5', '6', '7', '8', '9', 'a', 'b', 'c', 'd', 'e', 'f']

/-- What a digit counts: the number of digits before it. A letter may be a capital. -/
def digit (c : Char) : Nat :=
  alphabet.idxOf c.toLower

/-- The number that a row of digits stands for in a base. The last digit has the least place. -/
def number (base : Nat) (ds : List Char) : Nat :=
  Nat.ofDigits base (ds.reverse.map digit)

theorem number_append_singleton (base : Nat) (ds : List Char) (c : Char) :
    number base (ds ++ [c]) = digit c + base * number base ds := by
  simp [number, Nat.ofDigits_cons]

theorem value_append_singleton (base : Nat) (ds : List Char) (c : Char) :
    value base (ds ++ [c]) = base * value base ds + digitValue c := by
  simp [value]

/-- Digits in front count for more with each digit that follows them. -/
theorem value_append (base : Nat) (ds es : List Char) :
    value base (ds ++ es) = base ^ es.length * value base ds + value base es := by
  induction es using List.reverseRecOn with
  | nil => simp [value]
  | append_singleton es c ih =>
      rw [← List.append_assoc, value_append_singleton, value_append_singleton, ih, Nat.mul_add,
        ← Nat.mul_assoc, ← Nat.pow_succ', Nat.add_assoc, List.length_append, List.length_singleton]

/-- More digits in front do not make a numeral smaller. -/
theorem value_le_append_left (base : Nat) (ds es : List Char) :
    value base es ≤ value base (ds ++ es) := by
  rw [value_append]
  exact Nat.le_add_left _ _

/-- More digits behind do not make a numeral smaller. -/
theorem value_le_append_right {base : Nat} (hbase : 0 < base) (ds es : List Char) :
    value base ds ≤ value base (ds ++ es) := by
  rw [value_append]
  exact Nat.le_add_right_of_le (Nat.le_mul_of_pos_left _ (Nat.pow_pos hbase))

/-- What holds of all characters up to the last hexadecimal digit holds of every such digit. -/
theorem forall_hexDigit {P : Char → Prop} (h : ∀ n < 103, P (Char.ofNat n))
    (hc : isHexDigit c = true) : P c := by
  simp only [isHexDigit, Char.isDigit, Bool.or_eq_true, Bool.and_eq_true, decide_eq_true_eq] at hc
  have hlt : c.toNat < 103 := by
    rcases hc with (⟨-, hc⟩ | ⟨-, hc⟩) | ⟨-, hc⟩
    · exact Nat.lt_of_le_of_lt hc (by decide)
    · exact Nat.lt_of_le_of_lt hc (by decide)
    · exact Nat.lt_of_le_of_lt hc (by decide)
  rw [← Char.ofNat_toNat c]
  exact h c.toNat hlt

theorem digitValue_eq_digit (h : isHexDigit c = true) : digitValue c = digit c := by
  have hall : ∀ n < 103, isHexDigit (Char.ofNat n) = true →
      digitValue (Char.ofNat n) = digit (Char.ofNat n) := by decide
  exact forall_hexDigit (P := fun c => isHexDigit c = true → digitValue c = digit c) hall h h

theorem value_eq_number (base : Nat) (h : ∀ c ∈ ds, isHexDigit c = true) :
    value base ds = number base ds := by
  induction ds using List.reverseRecOn with
  | nil => rfl
  | append_singleton ds c ih =>
      have hds : ∀ d ∈ ds, isHexDigit d = true := fun d hd => h d (List.mem_append_left _ hd)
      have hc : isHexDigit c = true := h c (by simp)
      rw [value_append_singleton, number_append_singleton, ih hds, digitValue_eq_digit hc,
        Nat.add_comm]

theorem digit_eq_zero_iff (h : c.isDigit = true) : digit c = 0 ↔ c = '0' := by
  have hall : ∀ n < 103, (Char.ofNat n).isDigit = true →
      (digit (Char.ofNat n) = 0 ↔ Char.ofNat n = '0') := by decide
  exact forall_hexDigit (P := fun c => c.isDigit = true → (digit c = 0 ↔ c = '0')) hall
    (isHexDigit_of_isDigit h) h

/-- A numeral stands for zero only if all of its digits are zeros. -/
theorem number_eq_zero_iff {base : Nat} (hbase : base ≠ 0) (h : ∀ c ∈ ds, c.isDigit = true) :
    number base ds = 0 ↔ ∀ c ∈ ds, c = '0' := by
  induction ds using List.reverseRecOn with
  | nil => simp [number]
  | append_singleton ds c ih =>
      have hds : ∀ d ∈ ds, d.isDigit = true := fun d hd => h d (List.mem_append_left _ hd)
      have hc : c.isDigit = true := h c (by simp)
      rw [number_append_singleton, Nat.add_eq_zero_iff, Nat.mul_eq_zero, or_iff_right hbase, ih hds,
        digit_eq_zero_iff hc, List.forall_mem_append, List.forall_mem_singleton, and_comm]

end NamedCaptures.Numeral
