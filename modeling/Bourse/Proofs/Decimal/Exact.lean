import Bourse.Proofs.Decimal.Sums

/-!
# Exact results

A difference or a product is exact just if it is a decimal number at all. Where it is not, the
rounded one is off by no more than half a unit of its last digit.
-/

namespace Bourse.Decimal

variable {negative : Bool} {n s : ℕ} {v : ℚ} {a b c : Decimal}

/-- Rounding moves a number by at most half a unit of its last digit. -/
theorem IsFit.two_mul_abs_sub_le (h : IsFit negative n s c)
    (hv : v = signFactor negative * (n / 10 ^ s)) : 2 * |c.toRat - v| * 10 ^ c.scale ≤ 1 := by
  have hpos : (0 : ℚ) < 10 ^ (s - c.scale) := by positivity
  have hup : (2 * (c.coefficient * 10 ^ (s - c.scale)) : ℚ) ≤ 2 * n + 10 ^ (s - c.scale) := by
    have hle := two_mul_divHalfEven_le n (pow10 (s - c.scale))
    rw [← h.coefficient_eq, pow10_eq] at hle
    exact_mod_cast hle
  have hdown : (2 * n : ℚ) ≤ 2 * (c.coefficient * 10 ^ (s - c.scale)) + 10 ^ (s - c.scale) := by
    have hle := le_two_mul_divHalfEven (n := n) (pow10_pos (s - c.scale))
    rw [← h.coefficient_eq, pow10_eq] at hle
    exact_mod_cast hle
  have hpow : (10 : ℚ) ^ s = 10 ^ c.scale * 10 ^ (s - c.scale) := by
    rw [← pow_add, Nat.add_sub_cancel' h.scale_le]
  have hdiff : |c.toRat - v| * 10 ^ c.scale =
      |(c.coefficient : ℚ) * 10 ^ (s - c.scale) - n| / 10 ^ (s - c.scale) := by
    have hcoeff : (c.coefficient : ℚ) / 10 ^ c.scale - n / 10 ^ s =
        (c.coefficient * 10 ^ (s - c.scale) - n) / 10 ^ (s - c.scale) / 10 ^ c.scale := by
      rw [hpow]
      field_simp
    rw [toRat_eq, h.negative_eq, hv, ← mul_sub, abs_mul, abs_signFactor, one_mul, hcoeff, abs_div,
      abs_div, abs_of_pos hpos, abs_of_pos (show (0 : ℚ) < 10 ^ c.scale by positivity),
      div_mul_cancel₀ _ (by positivity)]
  rw [mul_assoc, hdiff, ← mul_div_assoc, div_le_one hpos]
  have habs : |(c.coefficient : ℚ) * 10 ^ (s - c.scale) - n| ≤ 10 ^ (s - c.scale) / 2 :=
    abs_le.2 ⟨by linarith, by linarith⟩
  linarith

/-! ### Differences -/

theorem two_mul_abs_add?_le (h : add? a b = some c) :
    2 * |c.toRat - (a.toRat + b.toRat)| * 10 ^ c.scale ≤ 1 := by
  cases hza : a.isZero with
  | true =>
    obtain rfl : b = c := by simpa [add?, hza] using h
    rw [isZero_iff.1 hza, zero_add, sub_self, abs_zero, mul_zero, zero_mul]
    exact zero_le_one
  | false =>
    cases hzb : b.isZero with
    | true =>
      obtain rfl : a = c := by simpa [add?, hza, hzb] using h
      rw [isZero_iff.1 hzb, add_zero, sub_self, abs_zero, mul_zero, zero_mul]
      exact zero_le_one
    | false =>
      obtain ⟨n, s, negative, -, hfit, hv⟩ := add?_eq_fit? hza hzb
      exact (isFit_of_fit? (hfit.symm.trans h)).two_mul_abs_sub_le hv

/-- A difference is exact just if it is a decimal number. -/
theorem sub_eq_iff_isDecimal (h : a.sub b = .ok c) :
    c.toRat = a.toRat - b.toRat ↔ IsDecimal (a.toRat - b.toRat) := by
  constructor
  · exact fun hv => ⟨c, hv⟩
  · intro hdec
    obtain ⟨c', hc', hv⟩ := sub_of_isDecimal hdec
    obtain rfl := Except.ok.inj (hc'.symm.trans h)
    exact hv

theorem two_mul_abs_sub_le (h : a.sub b = .ok c) :
    2 * |c.toRat - (a.toRat - b.toRat)| * 10 ^ c.scale ≤ 1 := by
  have hle := two_mul_abs_add?_le (sub_eq_ok_iff.1 h)
  rwa [toRat_neg, ← sub_eq_add_neg] at hle

/-! ### Products -/

/-- A product is exact just if it is a decimal number. -/
theorem mul?_eq_iff_isDecimal (h : mul? a b = some c) :
    c.toRat = a.toRat * b.toRat ↔ IsDecimal (a.toRat * b.toRat) := by
  constructor
  · exact fun hv => ⟨c, hv⟩
  · intro hdec
    obtain ⟨c', hc', hv⟩ := mul?_of_isDecimal hdec
    obtain rfl := Option.some.inj (hc'.symm.trans h)
    exact hv

end Bourse.Decimal
