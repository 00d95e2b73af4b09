import Bourse.Decimal.Arithmetic
import Mathlib.Algebra.Order.Field.Rat
import Mathlib.Tactic.FieldSimp
import Mathlib.Tactic.Linarith
import Mathlib.Tactic.NormNum
import Mathlib.Tactic.Positivity
import Mathlib.Tactic.Ring

/-!
# The value of a decimal number

Comparisons of decimal numbers are those of their values as rational numbers. A value *has `d`
digits* if it is a multiple of `1 / 10 ^ d`: sums of such values have `d` digits again, and products
have as many digits as both factors together. A value with at most 28 digits that is in range at the
scale of these digits is that of a decimal number.
-/

namespace Bourse

theorem pow10_eq (n : ℕ) : pow10 n = 10 ^ n := rfl

theorem pow10_pos (n : ℕ) : 0 < pow10 n := Nat.pow_pos (by decide)

theorem bound_eq : Decimal.bound = 79228162514264337593543950336 := by decide

/-- `x` is a multiple of `1 / 10 ^ d`. -/
def HasDigits (d : ℕ) (x : ℚ) : Prop := ∃ k : ℤ, x * 10 ^ d = k

namespace HasDigits

variable {d e : ℕ} {x y : ℚ}

theorem zero (d : ℕ) : HasDigits d 0 := ⟨0, by simp⟩

theorem add (hx : HasDigits d x) (hy : HasDigits d y) : HasDigits d (x + y) := by
  obtain ⟨k, hk⟩ := hx
  obtain ⟨l, hl⟩ := hy
  exact ⟨k + l, by push_cast; rw [add_mul, hk, hl]⟩

theorem neg (hx : HasDigits d x) : HasDigits d (-x) := by
  obtain ⟨k, hk⟩ := hx
  exact ⟨-k, by push_cast; rw [neg_mul, hk]⟩

theorem sub (hx : HasDigits d x) (hy : HasDigits d y) : HasDigits d (x - y) := by
  rw [sub_eq_add_neg]
  exact hx.add hy.neg

theorem mul (hx : HasDigits d x) (hy : HasDigits e y) : HasDigits (d + e) (x * y) := by
  obtain ⟨k, hk⟩ := hx
  obtain ⟨l, hl⟩ := hy
  refine ⟨k * l, ?_⟩
  push_cast
  rw [← hk, ← hl, pow_add]
  ring

theorem mono (hx : HasDigits d x) (hde : d ≤ e) : HasDigits e x := by
  obtain ⟨k, hk⟩ := hx
  refine ⟨k * 10 ^ (e - d), ?_⟩
  push_cast
  rw [← hk, mul_assoc, ← pow_add, Nat.add_sub_cancel' hde]

/-- The units that a value is made of are those of its size. -/
theorem abs_mul_pow_eq {k : ℤ} (hk : x * 10 ^ d = k) : |x| * 10 ^ d = k.natAbs := by
  rw [← abs_of_pos (show (0 : ℚ) < 10 ^ d by positivity), ← abs_mul, hk, Nat.cast_natAbs,
    Int.cast_abs]

/-- A positive value with `d` digits is at least `1 / 10 ^ d`. -/
theorem one_le (hx : HasDigits d x) (hpos : 0 < x) : 1 ≤ x * 10 ^ d := by
  obtain ⟨k, hk⟩ := hx
  have h : (0 : ℚ) < k := by rw [← hk]; positivity
  rw [hk]
  exact_mod_cast (by exact_mod_cast h : (0 : ℤ) < k)

end HasDigits

namespace Decimal

/-- The number as a rational number. -/
def toRat (a : Decimal) : ℚ := a.mantissa / 10 ^ a.scale

variable {a b : Decimal}

theorem mantissa_eq (a : Decimal) : (a.mantissa : ℚ) = a.toRat * 10 ^ a.scale := by
  rw [toRat, div_mul_cancel₀]
  positivity

@[simp] theorem toRat_zero : zero.toRat = 0 := by
  simp [toRat, zero, mantissa]

theorem toRat_of_mantissa {m : ℤ} {s : ℕ} (hm : a.mantissa = m) (hs : a.scale = s) :
    a.toRat = m / 10 ^ s := by
  rw [toRat, hm, hs]

@[simp] theorem toRat_ofWord (n : UInt64) : (ofWord n).toRat = n.toNat := by
  simp [toRat, ofWord, mantissa]

theorem toRat_ofMantissa {m : ℤ} {s : ℕ} (hm : m.natAbs < bound) (hs : s ≤ 28) :
    (ofMantissa m s hm hs).toRat = m / 10 ^ s := by
  rw [toRat, mantissa_ofMantissa]
  rfl

/-- A number has as many digits as it is written with. -/
theorem hasDigits_scale (a : Decimal) : HasDigits a.scale a.toRat :=
  ⟨a.mantissa, (mantissa_eq a).symm⟩

theorem scaledBy_eq (a b : Decimal) :
    (a.scaledBy b : ℚ) = a.toRat * (10 ^ a.scale * 10 ^ b.scale) := by
  rw [scaledBy, pow10_eq]
  push_cast
  rw [mantissa_eq, mul_assoc]

theorem le_iff : a ≤ b ↔ a.toRat ≤ b.toRat := by
  have h : a ≤ b ↔ (a.scaledBy b : ℚ) ≤ b.scaledBy a := Int.cast_le.symm
  rw [h, scaledBy_eq, scaledBy_eq, mul_comm (10 ^ b.scale : ℚ)]
  exact mul_le_mul_iff_of_pos_right (by positivity)

theorem lt_iff : a < b ↔ a.toRat < b.toRat := by
  have h : a < b ↔ (a.scaledBy b : ℚ) < b.scaledBy a := Int.cast_lt.symm
  rw [h, scaledBy_eq, scaledBy_eq, mul_comm (10 ^ b.scale : ℚ)]
  exact mul_lt_mul_iff_of_pos_right (by positivity)

theorem sameValue_iff : a.SameValue b ↔ a.toRat = b.toRat := by
  have h : a.SameValue b ↔ (a.scaledBy b : ℚ) = b.scaledBy a := Int.cast_inj.symm
  rw [h, scaledBy_eq, scaledBy_eq, mul_comm (10 ^ b.scale : ℚ)]
  exact mul_left_inj' (by positivity)

theorem not_lt_iff : ¬ a < b ↔ b.toRat ≤ a.toRat := by
  rw [lt_iff, not_lt]

theorem isPos_iff : a.isPos = true ↔ 0 < a.toRat := by
  rw [isPos, decide_eq_true_eq, ← Int.cast_pos (R := ℚ), mantissa_eq]
  exact mul_pos_iff_of_pos_right (by positivity)

theorem isNeg_iff : a.isNeg = true ↔ a.toRat < 0 := by
  have hp : (0 : ℚ) < 10 ^ a.scale := by positivity
  rw [isNeg, decide_eq_true_eq, ← Int.cast_lt_zero (R := ℚ), mantissa_eq]
  exact ⟨fun h => neg_of_mul_neg_left h hp.le, fun h => mul_neg_of_neg_of_pos h hp⟩

theorem mantissa_eq_zero_iff : a.mantissa = 0 ↔ a.coefficient = 0 := by
  rw [← natAbs_mantissa, Int.natAbs_eq_zero]

theorem isZero_iff : a.isZero = true ↔ a.toRat = 0 := by
  rw [isZero, beq_iff_eq, ← mantissa_eq_zero_iff, ← Int.cast_inj (α := ℚ), mantissa_eq,
    Int.cast_zero]
  exact mul_eq_zero_iff_right (by positivity)

theorem isZero_eq_false_iff : a.isZero = false ↔ a.toRat ≠ 0 := by
  rw [← Bool.not_eq_true, isZero_iff.not]

@[simp] theorem toRat_neg (a : Decimal) : a.neg.toRat = -a.toRat := by
  unfold neg
  split
  · rename_i h
    have : a.mantissa = 0 := mantissa_eq_zero_iff.2 h
    simp [toRat, this]
  · cases hn : a.negative <;> simp [toRat, mantissa, hn, neg_div]

theorem toRat_min (a b : Decimal) : (a.min b).toRat = Min.min a.toRat b.toRat := by
  unfold min
  split
  · rename_i h
    rw [min_eq_right (lt_iff.1 h).le]
  · rename_i h
    rw [min_eq_left (not_lt_iff.1 h)]

theorem toRat_max (a b : Decimal) : (a.max b).toRat = Max.max a.toRat b.toRat := by
  unfold max
  split
  · rename_i h
    rw [max_eq_right (lt_iff.1 h).le]
  · rename_i h
    rw [max_eq_left (not_lt_iff.1 h)]

/-- A number without its sign. -/
theorem abs_toRat (a : Decimal) : |a.toRat| = a.coefficient / 10 ^ a.scale := by
  rw [toRat, abs_div, ← Int.cast_abs, Int.abs_eq_natAbs, natAbs_mantissa,
    abs_of_nonneg (by positivity)]
  simp

/-- The sign as a factor. -/
def signFactor (negative : Bool) : ℚ := if negative then -1 else 1

theorem abs_signFactor (negative : Bool) : |signFactor negative| = 1 := by
  cases negative <;> simp [signFactor]

theorem toRat_eq (a : Decimal) :
    a.toRat = signFactor a.negative * (a.coefficient / 10 ^ a.scale) := by
  cases hn : a.negative <;> simp [toRat, mantissa, hn, neg_div, signFactor]

/-- Every number is well below the bound of the coefficients. -/
theorem abs_toRat_le (a : Decimal) : |a.toRat| ≤ bound - 1 := by
  have h : (a.coefficient : ℚ) ≤ bound - 1 := by
    have := a.coefficient_lt
    rw [le_sub_iff_add_le]
    exact_mod_cast this
  rw [abs_toRat]
  exact (div_le_self (Nat.cast_nonneg _) (one_le_pow₀ (by norm_num))).trans h

end Decimal

/-- There is a decimal number with the value `x`. -/
def IsDecimal (x : ℚ) : Prop := ∃ d : Decimal, d.toRat = x

/-- What has few enough digits for its size is a decimal number. -/
theorem HasDigits.isDecimal {d : ℕ} {x : ℚ} (hdig : HasDigits d x) (hd : d ≤ 28)
    (hlt : |x| * 10 ^ d < Decimal.bound) : IsDecimal x := by
  obtain ⟨k, hk⟩ := hdig
  rw [abs_mul_pow_eq hk] at hlt
  refine ⟨.ofMantissa k d (by exact_mod_cast hlt) hd, ?_⟩
  rw [Decimal.toRat_ofMantissa, ← hk, mul_div_cancel_right₀ _ (by positivity)]

end Bourse
