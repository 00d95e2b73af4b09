import Bourse.Proofs.Decimal.Rounding

/-!
# Sums and products

Sums and products of decimal numbers are those of their values wherever the exact result is a decimal
number at all. A product of numbers with 28 digits together that is not exact is out of range at the
scale of these digits. There is a result just if the exact one, rounded to a whole number, is in
range.
-/

namespace Bourse.Decimal

/-! ### Rounded values -/

section Fit

variable {negative : Bool} {n s d : ℕ} {v : ℚ} {c : Decimal}

theorem IsFit.value_eq (h : IsFit negative n s c) (hv : v = signFactor negative * (n / 10 ^ s))
    (hc : c.coefficient * 10 ^ s = n * 10 ^ c.scale) : c.toRat = v := by
  have hc' : (c.coefficient : ℚ) * 10 ^ s = n * 10 ^ c.scale := by exact_mod_cast hc
  have hdiv : (c.coefficient : ℚ) / 10 ^ c.scale = n / 10 ^ s := by
    rw [div_eq_div_iff (by positivity) (by positivity)]
    exact hc'
  rw [toRat_eq, h.negative_eq, hdiv, hv]

theorem abs_eq_of_eq_signFactor_mul (hv : v = signFactor negative * (n / 10 ^ s)) :
    |v| = n / 10 ^ s := by
  rw [hv, abs_mul, abs_signFactor, one_mul, abs_of_nonneg (by positivity)]

/-- The whole number of units that a number with `d` digits is made of. -/
theorem exists_units (hv : v = signFactor negative * (n / 10 ^ s)) (hdig : HasDigits d v) :
    ∃ k : ℕ, |v| * 10 ^ d = k ∧ n * 10 ^ d = k * 10 ^ s := by
  obtain ⟨k, hk⟩ := hdig
  have habs := HasDigits.abs_mul_pow_eq hk
  refine ⟨k.natAbs, habs, ?_⟩
  rw [abs_eq_of_eq_signFactor_mul hv] at habs
  have h : (n : ℚ) * 10 ^ d = k.natAbs * 10 ^ s := by
    rw [← habs]
    field_simp
  exact_mod_cast h

theorem fit?_exact (hv : v = signFactor negative * (n / 10 ^ s)) (hdig : HasDigits d v)
    (hd : d ≤ 28) (hlt : |v| * 10 ^ d < bound) :
    ∃ c, fit? negative n s = some c ∧ c.toRat = v := by
  obtain ⟨k, hkv, hk⟩ := exists_units hv hdig
  have hkb : k < bound := by
    rw [hkv] at hlt
    exact_mod_cast hlt
  have hex : ∃ c, fit? negative n s = some c := by
    have hk28 : (10 : ℕ) ^ d ≤ 10 ^ 28 := Nat.pow_le_pow_right (by decide) hd
    refine (exists_fit?_iff negative n s).2 ?_
    have h10 : 0 < 10 ^ d := Nat.pow_pos (n := d) (show 0 < 10 by decide)
    have h10s : 0 < 10 ^ s := Nat.pow_pos (n := s) (show 0 < 10 by decide)
    have hn : n ≤ k * 10 ^ s := hk ▸ Nat.le_mul_of_pos_right n h10
    calc 2 * n ≤ 2 * k * 10 ^ s := by rw [mul_assoc]; exact Nat.mul_le_mul_left 2 hn
      _ < (2 * bound - 1) * 10 ^ s := Nat.mul_lt_mul_of_pos_right (by omega) h10s
  obtain ⟨c, hc⟩ := hex
  have hfit := isFit_of_fit? hc
  exact ⟨c, hc, hfit.value_eq hv (hfit.exact hk (hfit.le_scale hk hd hkb))⟩

/-- A decimal number is not rounded. -/
theorem fit?_of_isDecimal (hv : v = signFactor negative * (n / 10 ^ s)) (h : IsDecimal v) :
    ∃ c, fit? negative n s = some c ∧ c.toRat = v := by
  obtain ⟨d, rfl⟩ := h
  refine fit?_exact hv d.hasDigits_scale d.scale_le ?_
  rw [abs_toRat, div_mul_cancel₀ _ (by positivity)]
  exact_mod_cast d.coefficient_lt

theorem fit?_exact_or (hv : v = signFactor negative * (n / 10 ^ s)) (hdig : HasDigits d v)
    (hd : d ≤ 28) (h : fit? negative n s = some c) :
    c.toRat = v ∨ bound ≤ |c.toRat| * 10 ^ d := by
  obtain ⟨k, -, hk⟩ := exists_units hv hdig
  have hfit := isFit_of_fit? h
  by_cases hscale : d ≤ c.scale ∨ s ≤ c.scale
  · exact Or.inl (hfit.value_eq hv (hfit.exact hk hscale))
  · push Not at hscale
    right
    have hle := hfit.bound_le hd hscale.1 hscale.2
    have hpow : (10 : ℚ) ^ d = 10 ^ (d - c.scale) * 10 ^ c.scale := by
      rw [← pow_add, Nat.sub_add_cancel hscale.1.le]
    rw [abs_toRat, hpow, ← mul_assoc, mul_right_comm, div_mul_cancel₀ _ (by positivity)]
    exact_mod_cast hle

/-- Rounding does not carry a number past a decimal number. -/
theorem IsFit.abs_toRat_le_of_le (h : IsFit negative n s c)
    (hv : v = signFactor negative * (n / 10 ^ s)) {a : Decimal} (hle : |v| ≤ |a.toRat|) :
    |c.toRat| ≤ |a.toRat| := by
  rw [abs_eq_of_eq_signFactor_mul hv, abs_toRat,
    div_le_div_iff₀ (by positivity) (by positivity)] at hle
  have hnat : n * 10 ^ a.scale ≤ a.coefficient * 10 ^ s := by exact_mod_cast hle
  rw [abs_toRat, abs_toRat, div_le_div_iff₀ (by positivity) (by positivity)]
  exact_mod_cast h.coefficient_le hnat

theorem exists_fit?_iff_abs_lt (hv : v = signFactor negative * (n / 10 ^ s)) :
    (∃ c, fit? negative n s = some c) ↔ |v| < bound - 1 / 2 := by
  rw [exists_fit?_iff, abs_eq_of_eq_signFactor_mul hv, div_lt_iff₀ (by positivity)]
  have hcast : ((2 * bound - 1 : ℕ) : ℚ) = 2 * bound - 1 := by
    rw [Nat.cast_sub (by rw [bound_eq]; decide)]
    push_cast
    ring
  constructor
  · intro h
    have h' : (2 * n : ℚ) < (2 * bound - 1) * 10 ^ s := by
      rw [← hcast]
      exact_mod_cast h
    linarith
  · intro h
    have h' : (2 * n : ℚ) < (2 * bound - 1) * 10 ^ s := by linarith
    rw [← hcast] at h'
    exact_mod_cast h'

end Fit

/-! ### Sums -/

section Sum

variable {a b : Decimal} {d : ℕ}

/-- A sum that is not simply one of its operands is rounded from the exact one. -/
theorem add?_eq_fit? (ha : a.isZero = false) (hb : b.isZero = false) :
    ∃ n s negative, s ≤ 28 ∧ add? a b = fit? negative n s ∧
      a.toRat + b.toRat = signFactor negative * (n / 10 ^ s) := by
  let s := Nat.max a.scale b.scale
  let sum := a.mantissa * pow10 (s - a.scale) + b.mantissa * pow10 (s - b.scale)
  refine ⟨sum.natAbs, s, sum < 0, Nat.max_le.2 ⟨a.scale_le, b.scale_le⟩,
    by simp [add?, ha, hb, sum, s], ?_⟩
  have hpart : ∀ c : Decimal, c.scale ≤ s →
      c.toRat = (c.mantissa * pow10 (s - c.scale) : ℤ) / 10 ^ s := by
    intro c hc
    have hpow : (10 : ℚ) ^ s = 10 ^ c.scale * 10 ^ (s - c.scale) := by
      rw [← pow_add, Nat.add_sub_cancel' hc]
    rw [toRat, pow10_eq, hpow]
    push_cast
    rw [mul_div_mul_right _ _ (by positivity)]
  have hsum : a.toRat + b.toRat = (sum : ℚ) / 10 ^ s := by
    rw [hpart a (Nat.le_max_left _ _), hpart b (Nat.le_max_right _ _), ← add_div, ← Int.cast_add]
  have hsign : (sum : ℚ) = signFactor (decide (sum < 0)) * sum.natAbs := by
    rw [Nat.cast_natAbs]
    rcases lt_or_ge sum 0 with h | h
    · rw [decide_eq_true h, abs_of_neg h]
      simp [signFactor]
    · rw [decide_eq_false (not_lt.2 h), abs_of_nonneg h]
      simp [signFactor]
  rw [hsum, hsign, mul_div_assoc]

theorem add_eq_ok_iff {c : Decimal} : a.add b = .ok c ↔ add? a b = some c := by
  unfold add
  cases add? a b <;> simp

theorem sub_eq_ok_iff {c : Decimal} : a.sub b = .ok c ↔ add? a b.neg = some c := by
  unfold sub
  cases add? a b.neg <;> simp

theorem add?_of_isDecimal (h : IsDecimal (a.toRat + b.toRat)) :
    ∃ c, add? a b = some c ∧ c.toRat = a.toRat + b.toRat := by
  cases hza : a.isZero with
  | true => exact ⟨b, by simp [add?, hza], by rw [isZero_iff.1 hza, zero_add]⟩
  | false =>
    cases hzb : b.isZero with
    | true => exact ⟨a, by simp [add?, hza, hzb], by rw [isZero_iff.1 hzb, add_zero]⟩
    | false =>
      obtain ⟨n, s, negative, -, hfit, hv⟩ := add?_eq_fit? hza hzb
      rw [hfit]
      exact fit?_of_isDecimal hv h

theorem sub_of_isDecimal (h : IsDecimal (a.toRat - b.toRat)) :
    ∃ c, a.sub b = .ok c ∧ c.toRat = a.toRat - b.toRat := by
  rw [sub_eq_add_neg, ← toRat_neg] at h ⊢
  obtain ⟨c, hc, hv⟩ := add?_of_isDecimal h
  exact ⟨c, sub_eq_ok_iff.2 hc, hv⟩

theorem toRat_nonneg (h : a.negative = false) : 0 ≤ a.toRat := by
  rw [toRat_eq, h]
  simp only [signFactor, Bool.false_eq_true, if_false, one_mul]
  positivity

theorem abs_toRat_lt (a : Decimal) : |a.toRat| < bound - 1 / 2 :=
  (abs_toRat_le a).trans_lt (by linarith)

theorem exists_add?_iff : (∃ c, add? a b = some c) ↔ |a.toRat + b.toRat| < bound - 1 / 2 := by
  cases hza : a.isZero with
  | true =>
    rw [isZero_iff.1 hza, zero_add]
    exact iff_of_true ⟨b, by simp [add?, hza]⟩ (abs_toRat_lt b)
  | false =>
    cases hzb : b.isZero with
    | true =>
      rw [isZero_iff.1 hzb, add_zero]
      exact iff_of_true ⟨a, by simp [add?, hza, hzb]⟩ (abs_toRat_lt a)
    | false =>
      obtain ⟨n, s, negative, -, hfit, hv⟩ := add?_eq_fit? hza hzb
      rw [hfit]
      exact exists_fit?_iff_abs_lt hv

theorem add_exact (ha : HasDigits d a.toRat) (hb : HasDigits d b.toRat) (hd : d ≤ 28)
    (hlt : |a.toRat + b.toRat| * 10 ^ d < bound) :
    ∃ c, a.add b = .ok c ∧ c.toRat = a.toRat + b.toRat := by
  obtain ⟨c, hc, hv⟩ := add?_of_isDecimal ((ha.add hb).isDecimal hd hlt)
  exact ⟨c, add_eq_ok_iff.2 hc, hv⟩

theorem sub_exact (ha : HasDigits d a.toRat) (hb : HasDigits d b.toRat) (hd : d ≤ 28)
    (hlt : |a.toRat - b.toRat| * 10 ^ d < bound) :
    ∃ c, a.sub b = .ok c ∧ c.toRat = a.toRat - b.toRat :=
  sub_of_isDecimal ((ha.sub hb).isDecimal hd hlt)

/-- Rounding does not carry a number past zero. -/
theorem IsFit.toRat_nonneg {negative : Bool} {n s : ℕ} {v : ℚ} {c : Decimal}
    (h : IsFit negative n s c) (hv : v = signFactor negative * (n / 10 ^ s)) (hv0 : 0 ≤ v) :
    0 ≤ c.toRat := by
  cases hnegative : negative with
  | false => exact Decimal.toRat_nonneg (h.negative_eq.trans hnegative)
  | true =>
    have hv' : v = 0 := by
      refine le_antisymm ?_ hv0
      rw [hv, hnegative]
      simp only [signFactor, if_true, neg_one_mul, neg_nonpos]
      positivity
    have hc0 := h.abs_toRat_le_of_le hv (a := zero) (by rw [hv', toRat_zero])
    rw [toRat_zero, abs_zero] at hc0
    rw [abs_nonpos_iff.1 hc0]

/-- A number that is small enough to become zero has more digits than a result of a sum. -/
theorem IsFit.toRat_lt_zero {negative : Bool} {n s : ℕ} {v : ℚ} {c : Decimal}
    (h : IsFit negative n s c) (hs : s ≤ 28) (hv : v = signFactor negative * (n / 10 ^ s))
    (hv0 : v < 0) : c.toRat < 0 := by
  have hnegative : negative = true := by
    cases negative with
    | true => rfl
    | false =>
      have : 0 ≤ v := by
        rw [hv]
        simp only [signFactor, Bool.false_eq_true, if_false, one_mul]
        positivity
      exact absurd hv0 (not_lt.2 this)
  have hn : 0 < n := by
    refine Nat.pos_of_ne_zero ?_
    rintro rfl
    simp [hv] at hv0
  have hcoefficient : 0 < c.coefficient := by
    rcases Nat.eq_or_lt_of_le h.scale_le with heq | hlt
    · rwa [h.coefficient_eq, heq, Nat.sub_self, divHalfEven_pow10_zero]
    · have hle := h.bound_le hs hlt hlt
      refine Nat.pos_of_mul_pos_right (lt_of_lt_of_le ?_ hle)
      rw [bound_eq]
      decide
  rw [toRat_eq, h.negative_eq, hnegative]
  simp only [signFactor, if_true, neg_one_mul, neg_lt_zero]
  positivity

theorem add_toRat_nonneg {c : Decimal} (ha : 0 ≤ a.toRat) (hb : 0 ≤ b.toRat) (h : a.add b = .ok c) :
    0 ≤ c.toRat := by
  have hadd := add_eq_ok_iff.1 h
  cases hza : a.isZero with
  | true =>
    obtain rfl : b = c := by simpa [add?, hza] using hadd
    exact hb
  | false =>
    cases hzb : b.isZero with
    | true =>
      obtain rfl : a = c := by simpa [add?, hza, hzb] using hadd
      exact ha
    | false =>
      obtain ⟨n, s, negative, -, hfit, hv⟩ := add?_eq_fit? hza hzb
      exact (isFit_of_fit? (hfit.symm.trans hadd)).toRat_nonneg hv (add_nonneg ha hb)

/-- The difference of two numbers that are not negative is in range. -/
theorem exists_sub_of_nonneg (ha : 0 ≤ a.toRat) (hb : 0 ≤ b.toRat) : ∃ c, a.sub b = .ok c := by
  have hrange : |a.toRat + b.neg.toRat| < bound - 1 / 2 := by
    rw [toRat_neg, ← sub_eq_add_neg]
    exact abs_sub_lt_of_nonneg_of_lt ha ((le_abs_self _).trans_lt (abs_toRat_lt a)) hb
      ((le_abs_self _).trans_lt (abs_toRat_lt b))
  obtain ⟨c, hc⟩ := exists_add?_iff.2 hrange
  exact ⟨c, sub_eq_ok_iff.2 hc⟩

/-- A smaller number can be taken from a larger one, and leaves no more than there was. -/
theorem sub_between (hb : 0 ≤ b.toRat) (hle : b.toRat ≤ a.toRat) :
    ∃ c, a.sub b = .ok c ∧ 0 ≤ c.toRat ∧ c.toRat ≤ a.toRat := by
  suffices h : ∃ c, add? a b.neg = some c ∧ 0 ≤ c.toRat ∧ c.toRat ≤ a.toRat by
    obtain ⟨c, hc, hv⟩ := h
    exact ⟨c, by simp [sub, hc], hv⟩
  have hneg : b.neg.toRat = -b.toRat := toRat_neg b
  cases hza : a.isZero with
  | true =>
    have ha0 := isZero_iff.1 hza
    have hb0 : b.toRat = 0 := le_antisymm (by linarith) hb
    refine ⟨b.neg, by simp [add?, hza], ?_, ?_⟩ <;> rw [hneg, hb0, neg_zero]
    exact ha0.ge
  | false =>
    cases hzb : b.neg.isZero with
    | true => exact ⟨a, by simp [add?, hza, hzb], hb.trans hle, le_refl _⟩
    | false =>
      obtain ⟨n, s, negative, -, hfit, hv⟩ := add?_eq_fit? hza hzb
      rw [hneg, ← sub_eq_add_neg] at hv
      have habs : |a.toRat - b.toRat| ≤ a.toRat := by
        rw [abs_of_nonneg (by linarith)]
        linarith
      obtain ⟨c, hc⟩ := (exists_fit?_iff_abs_lt hv).2
        ((habs.trans (le_abs_self _)).trans_lt (abs_toRat_lt a))
      have hfitc := isFit_of_fit? hc
      refine ⟨c, hfit.trans hc, hfitc.toRat_nonneg hv (by linarith), ?_⟩
      have hc := hfitc.abs_toRat_le_of_le hv (habs.trans (le_abs_self _))
      rw [abs_of_nonneg (hb.trans hle)] at hc
      exact (le_abs_self _).trans hc

/-- Nothing is rounded off a difference but digits of one that is large. -/
theorem sub_toRat_lt_zero {c : Decimal} (hlt : a.toRat < b.toRat) (hb : 0 < b.toRat)
    (h : a.sub b = .ok c) : c.toRat < 0 := by
  have hadd := sub_eq_ok_iff.1 h
  have hneg : b.neg.toRat = -b.toRat := toRat_neg b
  cases hza : a.isZero with
  | true =>
    obtain rfl : b.neg = c := by simpa [add?, hza] using hadd
    rw [hneg]
    exact neg_lt_zero.2 hb
  | false =>
    have hzb : b.neg.isZero = false := by
      rw [isZero_eq_false_iff, hneg]
      exact neg_ne_zero.2 hb.ne'
    obtain ⟨n, s, negative, hs, hfit, hv⟩ := add?_eq_fit? hza hzb
    refine (isFit_of_fit? (hfit.symm.trans hadd)).toRat_lt_zero hs hv ?_
    rw [hneg]
    linarith

end Sum

/-! ### Products -/

section Product

variable {a b c : Decimal} {i j : ℕ}

@[simp] theorem toRat_unsignedZero (a : Decimal) : a.unsignedZero.toRat = a.toRat := by
  cases hz : a.isZero with
  | false => simp [unsignedZero, hz, toRat, mantissa]
  | true =>
    have h0 : a.coefficient = 0 := by simpa [isZero] using hz
    simp [unsignedZero, toRat, mantissa, h0]

theorem mul_eq_signFactor_mul (a b : Decimal) :
    a.toRat * b.toRat = signFactor (a.negative != b.negative) *
      ((a.coefficient * b.coefficient : ℕ) / 10 ^ (a.scale + b.scale)) := by
  rw [toRat_eq a, toRat_eq b, pow_add]
  push_cast
  cases a.negative <;> cases b.negative <;> simp [signFactor] <;> field_simp

/-- Short factors with few digits have a small scale. -/
theorem scale_le_of_isShort (ha : HasDigits i a.toRat) (hz : a.isZero = false)
    (hs : a.isShort = true) : a.scale ≤ i + 9 := by
  have h32 : a.coefficient < 10 ^ 10 := by
    have h : a.coefficient < UInt32.size := by simpa [isShort] using hs
    exact h.trans (by decide)
  have hpos : 0 < |a.toRat| := abs_pos.2 (isZero_eq_false_iff.1 hz)
  have hdig : HasDigits i |a.toRat| := by
    rcases abs_choice a.toRat with h | h
    · rwa [h]
    · rw [h]
      exact ha.neg
  have hone := hdig.one_le hpos
  rw [abs_toRat, div_mul_eq_mul_div, le_div_iff₀ (by positivity), one_mul] at hone
  have hpow : (10 : ℕ) ^ a.scale < 10 ^ (i + 10) := by
    have hle : 10 ^ a.scale ≤ a.coefficient * 10 ^ i := by exact_mod_cast hone
    calc 10 ^ a.scale ≤ a.coefficient * 10 ^ i := hle
      _ < 10 ^ 10 * 10 ^ i :=
        Nat.mul_lt_mul_of_pos_right h32 (Nat.pow_pos (n := i) (show 0 < 10 by decide))
      _ = 10 ^ (i + 10) := by rw [← pow_add, Nat.add_comm]
  have := (Nat.pow_lt_pow_iff_right (show 1 < 10 by decide)).1 hpow
  omega

/-- A product of numbers that are not zero is rounded from the exact one, unless both are short and
have many digits behind the point. -/
theorem mul?_eq_fit? (ha : a.isZero = false) (hb : b.isZero = false)
    (hs : a.isShort = true → b.isShort = true → a.scale + b.scale ≤ shortProductScale) :
    ∃ f : Decimal → Decimal, (∀ c, (f c).toRat = c.toRat) ∧
      mul? a b = (fit? (a.negative != b.negative) (a.coefficient * b.coefficient)
        (a.scale + b.scale)).map f := by
  by_cases h : a.isShort = true ∧ b.isShort = true
  · refine ⟨unsignedZero, toRat_unsignedZero, ?_⟩
    have hle := hs h.1 h.2
    simp [mul?, ha, hb, h.1, h.2, not_lt.2 hle]
  · refine ⟨id, fun _ => rfl, ?_⟩
    have hb' : (a.isShort && b.isShort) = false := by
      rw [← Bool.not_eq_true, Bool.and_eq_true]
      exact h
    simp [mul?, ha, hb, hb']

theorem mul?_of_isZero (h : a.isZero = true ∨ b.isZero = true) : mul? a b = some zero := by
  rcases h with h | h <;> simp [mul?, h]

theorem short_product_le (ha : HasDigits i a.toRat) (hb : HasDigits j b.toRat)
    (hza : a.isZero = false) (hzb : b.isZero = false) (hij : i + j ≤ 28)
    (hsa : a.isShort = true) (hsb : b.isShort = true) : a.scale + b.scale ≤ shortProductScale := by
  have := scale_le_of_isShort ha hza hsa
  have := scale_le_of_isShort hb hzb hsb
  unfold shortProductScale
  omega

/-- The digits of a product of short factors that are not looked at are needed. -/
theorem short_scale_le (hza : a.isZero = false) (hzb : b.isZero = false) (hsa : a.isShort = true)
    (hsb : b.isShort = true) (h : IsDecimal (a.toRat * b.toRat)) :
    a.scale + b.scale ≤ shortProductScale := by
  obtain ⟨d, hd⟩ := h
  have hdig : HasDigits 28 |a.toRat * b.toRat| := by
    have hdig := d.hasDigits_scale.mono d.scale_le
    rw [hd] at hdig
    rcases abs_choice (a.toRat * b.toRat) with h | h
    · rwa [h]
    · rw [h]
      exact hdig.neg
  have hpos : 0 < |a.toRat * b.toRat| :=
    abs_pos.2 (mul_ne_zero (isZero_eq_false_iff.1 hza) (isZero_eq_false_iff.1 hzb))
  have hone := hdig.one_le hpos
  rw [abs_mul, abs_toRat, abs_toRat, div_mul_div_comm, ← pow_add, div_mul_eq_mul_div,
    le_div_iff₀ (by positivity), one_mul] at hone
  have hle : 10 ^ (a.scale + b.scale) ≤ a.coefficient * b.coefficient * 10 ^ 28 := by
    exact_mod_cast hone
  have hshort : ∀ x : Decimal, x.isShort = true → x.coefficient ≤ 2 ^ 32 := by
    intro x hx
    have hlt : x.coefficient < UInt32.size := by simpa [isShort] using hx
    exact hlt.le
  have hlt : 10 ^ (a.scale + b.scale) < 10 ^ 48 :=
    calc 10 ^ (a.scale + b.scale) ≤ a.coefficient * b.coefficient * 10 ^ 28 := hle
      _ ≤ 2 ^ 32 * 2 ^ 32 * 10 ^ 28 :=
        Nat.mul_le_mul_right _ (Nat.mul_le_mul (hshort a hsa) (hshort b hsb))
      _ < 10 ^ 48 := by decide
  have hscale := (Nat.pow_lt_pow_iff_right (show 1 < 10 by decide)).1 hlt
  unfold shortProductScale
  omega

theorem mul?_of_isDecimal (h : IsDecimal (a.toRat * b.toRat)) :
    ∃ c, mul? a b = some c ∧ c.toRat = a.toRat * b.toRat := by
  by_cases hz : a.isZero = true ∨ b.isZero = true
  · refine ⟨zero, mul?_of_isZero hz, ?_⟩
    rcases hz with hz | hz <;> simp [isZero_iff.1 hz]
  · push Not at hz
    simp only [ne_eq, Bool.not_eq_true] at hz
    obtain ⟨f, hf, hmul⟩ := mul?_eq_fit? hz.1 hz.2 fun hsa hsb =>
      short_scale_le hz.1 hz.2 hsa hsb h
    obtain ⟨c, hc, hv⟩ := fit?_of_isDecimal (mul_eq_signFactor_mul a b) h
    exact ⟨f c, by rw [hmul, hc]; rfl, by rw [hf, hv]⟩

theorem mul?_exact (ha : HasDigits i a.toRat) (hb : HasDigits j b.toRat) (hij : i + j ≤ 28)
    (hlt : |a.toRat * b.toRat| * 10 ^ (i + j) < bound) :
    ∃ c, mul? a b = some c ∧ c.toRat = a.toRat * b.toRat :=
  mul?_of_isDecimal ((ha.mul hb).isDecimal hij hlt)

/-- A product is exact, or else out of the range of the numbers with as many digits. -/
theorem mul?_exact_or (ha : HasDigits i a.toRat) (hb : HasDigits j b.toRat) (hij : i + j ≤ 28)
    (h : mul? a b = some c) :
    c.toRat = a.toRat * b.toRat ∨ bound ≤ |c.toRat| * 10 ^ (i + j) := by
  by_cases hz : a.isZero = true ∨ b.isZero = true
  · left
    obtain rfl := Option.some.inj ((mul?_of_isZero hz).symm.trans h)
    rcases hz with hz | hz <;> simp [isZero_iff.1 hz]
  · push Not at hz
    simp only [ne_eq, Bool.not_eq_true] at hz
    obtain ⟨f, hf, hmul⟩ := mul?_eq_fit? hz.1 hz.2 (short_product_le ha hb hz.1 hz.2 hij)
    rw [hmul] at h
    obtain ⟨c, hc, rfl⟩ := Option.map_eq_some_iff.1 h
    rw [hf]
    exact fit?_exact_or (mul_eq_signFactor_mul a b) (ha.mul hb) hij hc

theorem mul_eq_ok_iff : a.mul b = .ok c ↔ mul? a b = some c := by
  unfold mul
  cases mul? a b <;> simp

/-- A product is zero or rounded from the exact one. -/
theorem mul?_rounds (h : mul? a b = some c) :
    c.toRat = 0 ∨ ∃ c', c.toRat = c'.toRat ∧
      IsFit (a.negative != b.negative) (a.coefficient * b.coefficient) (a.scale + b.scale) c' := by
  by_cases hz : a.isZero = true ∨ b.isZero = true
  · obtain rfl := Option.some.inj ((mul?_of_isZero hz).symm.trans h)
    exact Or.inl toRat_zero
  · push Not at hz
    simp only [ne_eq, Bool.not_eq_true] at hz
    by_cases hs : a.isShort = true → b.isShort = true → a.scale + b.scale ≤ shortProductScale
    · obtain ⟨f, hf, hmul⟩ := mul?_eq_fit? hz.1 hz.2 hs
      rw [hmul] at h
      obtain ⟨c', hc', rfl⟩ := Option.map_eq_some_iff.1 h
      exact Or.inr ⟨c', hf c', isFit_of_fit? hc'⟩
    · push Not at hs
      obtain ⟨hsa, hsb, hscale⟩ := hs
      have hzero : mul? a b = some zero := by simp [mul?, hz.1, hz.2, hsa, hsb, hscale]
      obtain rfl := Option.some.inj (hzero.symm.trans h)
      exact Or.inl toRat_zero

theorem mul?_nonneg (ha : 0 ≤ a.toRat) (hb : 0 ≤ b.toRat) (h : mul? a b = some c) :
    0 ≤ c.toRat := by
  obtain hc | ⟨c', hc, hfit⟩ := mul?_rounds h
  · exact hc.ge
  · rw [hc]
    exact hfit.toRat_nonneg (mul_eq_signFactor_mul a b) (mul_nonneg ha hb)

/-- A share of a number is no more than the number. -/
theorem mul?_le (ha : 0 ≤ a.toRat) (hb : 0 ≤ b.toRat) (hb1 : b.toRat ≤ 1)
    (h : mul? a b = some c) : c.toRat ≤ a.toRat := by
  obtain hc | ⟨c', hc, hfit⟩ := mul?_rounds h
  · rw [hc]
    exact ha
  · have hle : |a.toRat * b.toRat| ≤ |a.toRat| := by
      rw [abs_mul, abs_of_nonneg hb]
      exact mul_le_of_le_one_right (abs_nonneg _) hb1
    have habs := hfit.abs_toRat_le_of_le (mul_eq_signFactor_mul a b) hle
    rw [abs_of_nonneg ha] at habs
    rw [hc]
    exact (le_abs_self _).trans habs

theorem exists_mul?_iff : (∃ c, mul? a b = some c) ↔ |a.toRat * b.toRat| < bound - 1 / 2 := by
  by_cases hz : a.isZero = true ∨ b.isZero = true
  · refine iff_of_true ⟨zero, mul?_of_isZero hz⟩ ?_
    have h0 := abs_toRat_lt zero
    rw [toRat_zero, abs_zero] at h0
    rcases hz with hz | hz <;> simpa [isZero_iff.1 hz] using h0
  · push Not at hz
    simp only [ne_eq, Bool.not_eq_true] at hz
    by_cases hs : a.isShort = true → b.isShort = true → a.scale + b.scale ≤ shortProductScale
    · obtain ⟨f, hf, hmul⟩ := mul?_eq_fit? hz.1 hz.2 hs
      rw [hmul, ← exists_fit?_iff_abs_lt (mul_eq_signFactor_mul a b)]
      constructor
      · rintro ⟨c, hc⟩
        obtain ⟨c, hc, -⟩ := Option.map_eq_some_iff.1 hc
        exact ⟨c, hc⟩
      · rintro ⟨c, hc⟩
        exact ⟨f c, by rw [hc]; rfl⟩
    · push Not at hs
      obtain ⟨hsa, hsb, hscale⟩ := hs
      refine iff_of_true ⟨zero, by simp [mul?, hz.1, hz.2, hsa, hsb, hscale]⟩ ?_
      have hshort : ∀ x : Decimal, x.isShort = true → |x.toRat| ≤ 2 ^ 32 := by
        intro x hx
        have h : x.coefficient < UInt32.size := by simpa [isShort] using hx
        rw [abs_toRat]
        refine (div_le_self (Nat.cast_nonneg _) (one_le_pow₀ (by norm_num))).trans ?_
        exact_mod_cast h.le
      rw [abs_mul]
      calc |a.toRat| * |b.toRat| ≤ 2 ^ 32 * 2 ^ 32 :=
            mul_le_mul (hshort a hsa) (hshort b hsb) (abs_nonneg _) (by norm_num)
        _ < (bound : ℚ) - 1 / 2 := by rw [bound_eq]; norm_num

end Product

end Bourse.Decimal
