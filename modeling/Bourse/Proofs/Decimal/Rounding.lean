import Bourse.Proofs.Decimal.Value

/-!
# Rounding

A result that has too many digits is written at the largest scale with room for it. So it is exact
whenever it has room at a scale that shows all of its digits, and it exists whenever the nearest
whole number is in range.
-/

namespace Bourse.Decimal

/-! ### Quotients -/

theorem divHalfEven_mul (q : ℕ) {d : ℕ} (hd : 0 < d) : divHalfEven (q * d) d = q := by
  have hmod : q * d % d = 0 := Nat.mul_mod_left q d
  have hdiv : q * d / d = q := Nat.mul_div_cancel q hd
  unfold divHalfEven
  rw [hmod, hdiv, if_neg (by omega)]

theorem divHalfEven_pow10_zero (n : ℕ) : divHalfEven n (pow10 0) = n := by
  simpa [pow10_eq] using divHalfEven_mul n (d := 1) (by decide)

/-- The nearest whole number is at most half a unit above the quotient. -/
theorem two_mul_divHalfEven_le (n d : ℕ) : 2 * (divHalfEven n d * d) ≤ 2 * n + d := by
  have h := Nat.div_add_mod' n d
  unfold divHalfEven
  split
  · rename_i hr
    rw [Nat.add_mul]
    omega
  · omega

/-- The nearest whole number is at most half a unit below the quotient. -/
theorem le_two_mul_divHalfEven {n d : ℕ} (hd : 0 < d) : 2 * n ≤ 2 * (divHalfEven n d * d) + d := by
  have h := Nat.div_add_mod' n d
  have hlt := Nat.mod_lt n hd
  unfold divHalfEven
  split
  · rw [Nat.add_mul]
    omega
  · omega

theorem divHalfEven_le {n d m : ℕ} (hd : 0 < d) (h : n ≤ m * d) : divHalfEven n d ≤ m := by
  have hup := two_mul_divHalfEven_le n d
  have hlt : divHalfEven n d < m + 1 := by
    refine Nat.lt_of_mul_lt_mul_right (a := 2 * d) ?_
    calc divHalfEven n d * (2 * d) = 2 * (divHalfEven n d * d) := by ring
      _ ≤ 2 * (m * d) + d := by omega
      _ < (m + 1) * (2 * d) := by
        have : (m + 1) * (2 * d) = 2 * (m * d) + 2 * d := by ring
        omega
  omega

/-- A quotient is rounded to less than an even number just if it is below the tie under it. -/
theorem divHalfEven_lt_iff {n d m : ℕ} (hd : 0 < d) (hm : 0 < m) :
    divHalfEven n d < 2 * m ↔ 2 * n < (4 * m - 1) * d := by
  have h := Nat.div_add_mod' n d
  have hlt := Nat.mod_lt n hd
  obtain ⟨p, rfl⟩ : ∃ p, m = p + 1 := ⟨m - 1, by omega⟩
  have hsub : (4 * (p + 1) - 1) * d = 4 * (p * d) + 3 * d := by
    rw [show 4 * (p + 1) - 1 = 4 * p + 3 by omega]
    ring
  have key : ∀ q e : ℕ, q ≤ e → q * d ≤ e * d := fun _ _ h => Nat.mul_le_mul_right d h
  rw [hsub]
  unfold divHalfEven
  generalize n / d = q at *
  generalize n % d = r at *
  have h2p : 2 * p * d = 2 * (p * d) := by ring
  have h2p1 : (2 * p + 1) * d = 2 * (p * d) + d := by ring
  have h2p2 : (2 * p + 2) * d = 2 * (p * d) + 2 * d := by ring
  split
  · rename_i hr
    constructor
    · intro hq
      have := key q (2 * p) (by omega)
      omega
    · intro hn
      by_contra hq
      have := key (2 * p + 1) q (by omega)
      rcases Nat.lt_or_ge (2 * p + 1) q with hq' | hq'
      · have := key (2 * p + 2) q hq'
        omega
      · omega
  · rename_i hr
    constructor
    · intro hq
      rcases Nat.lt_or_ge q (2 * p + 1) with hq' | hq'
      · have := key q (2 * p) (by omega)
        omega
      · have hq2 : q = 2 * p + 1 := by omega
        subst hq2
        omega
    · intro hn
      by_contra hq
      have := key (2 * p + 2) q (by omega)
      omega

/-! ### The largest scale with room -/

theorem atScale?_eq_some {negative : Bool} {n s t : ℕ} {c : Decimal}
    (h : atScale? negative n s t = some c) :
    c.negative = negative ∧ c.coefficient = divHalfEven n (pow10 (s - t)) ∧ c.scale = t := by
  simp only [atScale?] at h
  split at h
  · obtain rfl := Option.some.inj h
    exact ⟨rfl, rfl, rfl⟩
  · cases h

theorem atScale?_eq_none_iff {negative : Bool} {n s t : ℕ} (ht : t ≤ 28) :
    atScale? negative n s t = none ↔ bound ≤ divHalfEven n (pow10 (s - t)) := by
  simp only [atScale?]
  split
  · rename_i h
    simpa using h.1
  · rename_i h
    simpa [ht] using h

/-- `c` is `± n / 10 ^ s`, rounded to the largest scale with room for it. -/
structure IsFit (negative : Bool) (n s : ℕ) (c : Decimal) : Prop where
  negative_eq : c.negative = negative
  scale_le : c.scale ≤ s
  coefficient_eq : c.coefficient = divHalfEven n (pow10 (s - c.scale))
  /-- There is no room at a larger scale. -/
  full : ∀ u, c.scale < u → u ≤ s → u ≤ 28 → bound ≤ divHalfEven n (pow10 (s - u))

theorem fitBelow?_eq_some {negative : Bool} {n s t : ℕ} {c : Decimal} (ht : t ≤ 28)
    (h : fitBelow? negative n s t = some c) :
    c.negative = negative ∧ c.scale ≤ t ∧ c.coefficient = divHalfEven n (pow10 (s - c.scale)) ∧
      ∀ u, c.scale < u → u ≤ t → bound ≤ divHalfEven n (pow10 (s - u)) := by
  induction t with
  | zero =>
    obtain ⟨hn, hc, hs⟩ := atScale?_eq_some h
    exact ⟨hn, hs.le, by rw [hs]; exact hc, fun u h1 h2 => by omega⟩
  | succ t ih =>
    unfold fitBelow? at h
    split at h
    · rename_i a ha
      obtain rfl := Option.some.inj h
      obtain ⟨hn, hc, hs⟩ := atScale?_eq_some ha
      exact ⟨hn, hs.le, by rw [hs]; exact hc, fun u h1 h2 => by omega⟩
    · rename_i hnone
      obtain ⟨hn, hs, hc, hfull⟩ := ih (by omega) h
      refine ⟨hn, by omega, hc, fun u h1 h2 => ?_⟩
      rcases Nat.lt_or_ge u (t + 1) with hu | hu
      · exact hfull u h1 (by omega)
      · obtain rfl : u = t + 1 := by omega
        exact (atScale?_eq_none_iff ht).1 hnone

/-- Room at one scale is enough. -/
theorem exists_fitBelow? {negative : Bool} {n s t u : ℕ} (hut : u ≤ t) (ht : t ≤ 28)
    (h : divHalfEven n (pow10 (s - u)) < bound) : ∃ c, fitBelow? negative n s t = some c := by
  induction t with
  | zero =>
    obtain rfl : u = 0 := by omega
    rw [fitBelow?, ← Option.isSome_iff_exists, ← Option.ne_none_iff_isSome]
    exact fun hnone => absurd ((atScale?_eq_none_iff ht).1 hnone) (by omega)
  | succ t ih =>
    unfold fitBelow?
    split
    · exact ⟨_, rfl⟩
    · rename_i hnone
      refine ih ?_ (by omega)
      have hne : u ≠ t + 1 := by
        rintro rfl
        exact absurd ((atScale?_eq_none_iff ht).1 hnone) (by omega)
      omega

theorem isFit_of_fit? {negative : Bool} {n s : ℕ} {c : Decimal}
    (h : fit? negative n s = some c) : IsFit negative n s c := by
  obtain ⟨hn, hs, hc, hfull⟩ := fitBelow?_eq_some (Nat.min_le_right s 28) h
  exact ⟨hn, hs.trans (Nat.min_le_left s 28), hc,
    fun u h1 h2 h3 => hfull u h1 (Nat.le_min.2 ⟨h2, h3⟩)⟩

theorem exists_fit? (negative : Bool) {n s u : ℕ} (hus : u ≤ s) (hu : u ≤ 28)
    (h : divHalfEven n (pow10 (s - u)) < bound) : ∃ c, fit? negative n s = some c :=
  exists_fitBelow? (Nat.le_min.2 ⟨hus, hu⟩) (Nat.min_le_right s 28) h

/-- There is a result just if the whole part is in range. -/
theorem exists_fit?_iff (negative : Bool) (n s : ℕ) :
    (∃ c, fit? negative n s = some c) ↔ 2 * n < (2 * bound - 1) * 10 ^ s := by
  have hiff : divHalfEven n (pow10 s) < bound ↔ 2 * n < (2 * bound - 1) * 10 ^ s := by
    have h := divHalfEven_lt_iff (n := n) (pow10_pos s)
      (show 0 < 39614081257132168796771975168 by decide)
    rw [bound_eq]
    exact h
  constructor
  · rintro ⟨c, hc⟩
    have hfit := isFit_of_fit? hc
    have hlt := c.coefficient_lt
    rcases Nat.eq_zero_or_pos c.scale with h0 | hpos
    · rw [hfit.coefficient_eq, h0] at hlt
      exact hiff.1 hlt
    · -- Half a unit at the scale of the result is less than half a whole unit.
      have hle := le_two_mul_divHalfEven (n := n) (pow10_pos (s - c.scale))
      rw [← hfit.coefficient_eq] at hle
      have hpow : pow10 (s - c.scale) < 10 ^ s :=
        Nat.pow_lt_pow_right (by decide) (by have := hfit.scale_le; omega)
      calc 2 * n ≤ (2 * c.coefficient + 1) * pow10 (s - c.scale) := by
            rw [Nat.add_mul, Nat.mul_assoc]
            omega
        _ ≤ (2 * bound - 1) * pow10 (s - c.scale) := Nat.mul_le_mul_right _ (by omega)
        _ < (2 * bound - 1) * 10 ^ s :=
          Nat.mul_lt_mul_of_pos_left hpow (by rw [bound_eq]; decide)
  · intro h
    exact exists_fit? negative (Nat.zero_le s) (Nat.zero_le 28) (hiff.2 h)

/-! ### Exact results -/

namespace IsFit

variable {negative : Bool} {n s d k : ℕ} {c : Decimal}

/-- Nothing is lost at a scale that shows all digits. -/
theorem exact (h : IsFit negative n s c) (hk : n * 10 ^ d = k * 10 ^ s)
    (hd : d ≤ c.scale ∨ s ≤ c.scale) : c.coefficient * 10 ^ s = n * 10 ^ c.scale := by
  have hs := h.scale_le
  have hpow : (10 : ℕ) ^ s = pow10 (s - c.scale) * 10 ^ c.scale := by
    rw [pow10_eq, ← pow_add, Nat.sub_add_cancel hs]
  obtain ⟨q, hq⟩ : ∃ q, n = q * pow10 (s - c.scale) := by
    rcases hd with hd | hd
    · refine ⟨k * 10 ^ (c.scale - d), ?_⟩
      refine Nat.eq_of_mul_eq_mul_right (Nat.pow_pos (n := d) (show 0 < 10 by decide)) ?_
      calc n * 10 ^ d = k * 10 ^ s := hk
        _ = k * 10 ^ (c.scale - d) * pow10 (s - c.scale) * 10 ^ d := by
          rw [pow10_eq, mul_assoc, mul_assoc, ← pow_add, ← pow_add]
          congr 2
          omega
    · exact ⟨n, by rw [Nat.sub_eq_zero_of_le hd, pow10_eq, pow_zero, mul_one]⟩
  have hcoeff : c.coefficient = q := by
    rw [h.coefficient_eq, hq, divHalfEven_mul q (pow10_pos _)]
  rw [hcoeff, hpow, hq, mul_assoc]

/-- A number that is in range at the scale `d` is shown with at least `d` digits or all it has. -/
theorem le_scale (h : IsFit negative n s c) (hk : n * 10 ^ d = k * 10 ^ s) (hd : d ≤ 28)
    (hlt : k < bound) : d ≤ c.scale ∨ s ≤ c.scale := by
  by_contra hcon
  push Not at hcon
  have hfull := h.full (Min.min d s) (by omega) (by omega) (by omega)
  have hroom : divHalfEven n (pow10 (s - Min.min d s)) ≤ k := by
    rcases Nat.le_total s d with hsd | hsd
    · rw [Nat.min_eq_right hsd, Nat.sub_self]
      rw [divHalfEven_pow10_zero]
      refine Nat.le_of_mul_le_mul_right ?_ (Nat.pow_pos (n := s) (show 0 < 10 by decide))
      calc n * 10 ^ s ≤ n * 10 ^ d := Nat.mul_le_mul_left n (Nat.pow_le_pow_right (by decide) hsd)
        _ = k * 10 ^ s := hk
    · rw [Nat.min_eq_left hsd]
      have hn : n = k * pow10 (s - d) := by
        refine Nat.eq_of_mul_eq_mul_right (Nat.pow_pos (n := d) (show 0 < 10 by decide)) ?_
        rw [hk, pow10_eq, mul_assoc, ← pow_add, Nat.sub_add_cancel hsd]
      rw [hn, divHalfEven_mul k (pow10_pos _)]
  omega

/-- A number that is shown with fewer than `d` digits is out of range at the scale `d`. -/
theorem bound_le (h : IsFit negative n s c) (hd : d ≤ 28) (hds : c.scale < d) (hs : c.scale < s) :
    bound ≤ c.coefficient * 10 ^ (d - c.scale) := by
  have hfull := h.full (c.scale + 1) (by omega) (by omega) (by omega)
  have hup := two_mul_divHalfEven_le n (pow10 (s - (c.scale + 1)))
  have hdown := le_two_mul_divHalfEven (n := n) (pow10_pos (s - c.scale))
  rw [← h.coefficient_eq] at hdown
  generalize hq : divHalfEven n (pow10 (s - (c.scale + 1))) = q at hfull hup
  have hpow : pow10 (s - c.scale) = 10 * pow10 (s - (c.scale + 1)) := by
    rw [pow10_eq, pow10_eq, ← pow_succ']
    congr 1
    omega
  have hpos := pow10_pos (s - (c.scale + 1))
  generalize pow10 (s - (c.scale + 1)) = p at hup hpow hpos
  -- One digit less moves the number by at most five and a half units.
  have hten : q ≤ c.coefficient * 10 + 5 := by
    rw [hpow] at hdown
    refine Nat.le_of_lt_succ (Nat.lt_of_mul_lt_mul_right (a := 2 * p) ?_)
    calc q * (2 * p) = 2 * (q * p) := by ring
      _ ≤ 2 * (c.coefficient * (10 * p)) + 10 * p + p := by omega
      _ < (c.coefficient * 10 + 5 + 1) * (2 * p) := by
        have : (c.coefficient * 10 + 5 + 1) * (2 * p) =
            2 * (c.coefficient * (10 * p)) + 12 * p := by
          ring
        omega
  -- No multiple of ten is among the five numbers below the bound.
  have hbound : bound ≤ c.coefficient * 10 := by
    rw [bound_eq] at hfull ⊢
    omega
  calc bound ≤ c.coefficient * 10 ^ 1 := by rwa [pow_one]
    _ ≤ c.coefficient * 10 ^ (d - c.scale) :=
      Nat.mul_le_mul_left _ (Nat.pow_le_pow_right (by decide) (by omega))

/-- Rounding does not carry a number past a decimal number. -/
theorem coefficient_le (h : IsFit negative n s c) {a : Decimal}
    (hle : n * 10 ^ a.scale ≤ a.coefficient * 10 ^ s) :
    c.coefficient * 10 ^ a.scale ≤ a.coefficient * 10 ^ c.scale := by
  have hs := h.scale_le
  have hcancel : ∀ u ≤ s, ∀ m, n * 10 ^ u ≤ m * 10 ^ s → divHalfEven n (pow10 (s - u)) ≤ m := by
    intro u hu m hm
    refine divHalfEven_le (pow10_pos _) ?_
    refine Nat.le_of_mul_le_mul_right ?_ (Nat.pow_pos (n := u) (show 0 < 10 by decide))
    rwa [pow10_eq, mul_assoc, ← pow_add, Nat.sub_add_cancel hu]
  rcases Nat.lt_or_ge c.scale a.scale with hlt | hge
  · rcases Nat.eq_or_lt_of_le hs with heq | hroom
    · have hn : c.coefficient = n := by
        rw [h.coefficient_eq, heq, Nat.sub_self, divHalfEven_pow10_zero]
      rw [hn, heq]
      exact hle
    · -- There would be room for one more digit, as there is in `a`.
      have hscale := a.scale_le
      have hfull := h.full (c.scale + 1) (by omega) (by omega) (by omega)
      have hsmall : n * 10 ^ (c.scale + 1) ≤ a.coefficient * 10 ^ s :=
        (Nat.mul_le_mul_left n (Nat.pow_le_pow_right (by decide) (by omega))).trans hle
      have hlt := a.coefficient_lt
      have := hcancel (c.scale + 1) (by omega) a.coefficient hsmall
      omega
  · have hpow : (10 : ℕ) ^ c.scale = 10 ^ (c.scale - a.scale) * 10 ^ a.scale := by
      rw [← pow_add, Nat.sub_add_cancel hge]
    have hm : n * 10 ^ c.scale ≤ a.coefficient * 10 ^ (c.scale - a.scale) * 10 ^ s := by
      calc n * 10 ^ c.scale = n * 10 ^ a.scale * 10 ^ (c.scale - a.scale) := by
            rw [hpow]
            ring
        _ ≤ a.coefficient * 10 ^ s * 10 ^ (c.scale - a.scale) := Nat.mul_le_mul_right _ hle
        _ = a.coefficient * 10 ^ (c.scale - a.scale) * 10 ^ s := by ring
    have hcoeff := hcancel c.scale hs _ hm
    rw [← h.coefficient_eq] at hcoeff
    calc c.coefficient * 10 ^ a.scale
        ≤ a.coefficient * 10 ^ (c.scale - a.scale) * 10 ^ a.scale := Nat.mul_le_mul_right _ hcoeff
      _ = a.coefficient * 10 ^ c.scale := by rw [hpow, mul_assoc]

end IsFit

end Bourse.Decimal
