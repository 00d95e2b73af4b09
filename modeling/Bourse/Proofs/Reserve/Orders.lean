import Bourse.Proofs.Ledger.Calls
import Bourse.Proofs.Store.Conservation

/-!
# What orders have locked

An order has the cost of what remains of it locked, until it is finished. For a buyer this is the
price of the remaining quantity, for a seller the quantity itself. Where the digits of amounts and
prices are few enough the cost is exact, and each fill lowers it by the cost of its quantity.
-/

namespace Bourse

/-- How many digits amounts, prices and fee rates have. -/
structure Precision where
  amount : ℕ
  price : ℕ
  rate : ℕ
  /-- The fee of a trade has no more digits than a number can have. -/
  total_le : amount + price + rate ≤ 28

/-- The digits of everything that is computed from amounts, prices and rates. -/
def Precision.total (p : Precision) : ℕ := p.amount + p.price + p.rate

namespace Order

/-- What an order that is not finished has locked. -/
noncomputable def reserved (o : Order) : Account →₀ ℚ :=
  if o.status.isTerminal then 0
  else
    match o.reserveFor o.remaining with
    | .ok reserve => Finsupp.single (.locked o.userId reserve.asset) reserve.amount.toRat
    | .error _ => 0

/-- The exact cost of a quantity of an order. -/
def cost (o : Order) (q : ℚ) : ℚ :=
  match o.side with
  | .buy => o.price.toRat * q
  | .sell => q

/-- The asset in which an order's funds are locked. -/
def reserveAsset (o : Order) : String :=
  match o.side with
  | .buy => o.symbol.quote
  | .sell => o.symbol.base

/-- The account from which an order is paid. -/
def account (o : Order) : Account := .locked o.userId o.reserveAsset

/-- An order whose amounts and price are exact, and whose whole cost is in range. -/
structure Funded (p : Precision) (o : Order) : Prop where
  measured : o.Measured p.amount
  amount_pos : 0 < o.amount.toRat
  price_digits : HasDigits p.price o.price.toRat
  price_pos : 0 < o.price.toRat
  cost_lt : o.cost o.amount.toRat * 10 ^ p.total < Decimal.bound

variable {p : Precision} {o o' : Order} {q q' : ℚ}

theorem cost_zero (o : Order) : o.cost 0 = 0 := by
  unfold cost
  cases o.side
  · exact mul_zero _
  · rfl

theorem cost_sub (o : Order) (q q' : ℚ) : o.cost (q - q') = o.cost q - o.cost q' := by
  unfold cost
  cases o.side
  · exact mul_sub _ _ _
  · rfl

theorem cost_nonneg (hprice : 0 ≤ o.price.toRat) (hq : 0 ≤ q) : 0 ≤ o.cost q := by
  unfold cost
  cases o.side
  · exact mul_nonneg hprice hq
  · exact hq

theorem cost_pos (hprice : 0 < o.price.toRat) (hq : 0 < q) : 0 < o.cost q := by
  unfold cost
  cases o.side
  · exact mul_pos hprice hq
  · exact hq

theorem cost_mono (hprice : 0 ≤ o.price.toRat) (h : q ≤ q') : o.cost q ≤ o.cost q' := by
  unfold cost
  cases o.side
  · exact mul_le_mul_of_nonneg_left h hprice
  · exact h

/-- A cost has as many digits as the amount and the price together. -/
theorem cost_digits (hprice : HasDigits p.price o.price.toRat) (hq : HasDigits p.amount q) :
    HasDigits p.total (o.cost q) := by
  unfold cost Precision.total
  cases o.side
  · exact (hprice.mul hq).mono (by omega)
  · exact hq.mono (by omega)

/-- What is reserved for a quantity, if it is in range, is its cost. -/
theorem cost_of_reserveFor {quantity : Decimal} {reserve : Reserve}
    (hprice : HasDigits p.price o.price.toRat) (hpos : 0 ≤ o.price.toRat)
    (hq : HasDigits p.amount quantity.toRat) (hq_nonneg : 0 ≤ quantity.toRat)
    (h : o.reserveFor quantity = .ok reserve)
    (hlt : reserve.amount.toRat * 10 ^ p.total < Decimal.bound) :
    reserve.asset = o.reserveAsset ∧ reserve.amount.toRat = o.cost quantity.toRat := by
  unfold reserveFor at h
  unfold reserveAsset cost
  cases hside : o.side with
  | sell =>
    rw [hside] at h
    cases h
    exact ⟨rfl, rfl⟩
  | buy =>
    rw [hside] at h
    obtain ⟨c, hc, h⟩ := bind_eq_ok_iff.1 h
    cases h
    have hmul := product_eq_ok_iff.1 hc
    have hdigits : p.price + p.amount ≤ p.total := by
      unfold Precision.total
      omega
    refine ⟨rfl, (Decimal.mul?_exact_or hprice hq (hdigits.trans p.total_le) hmul).resolve_right ?_⟩
    intro hbound
    have hc_nonneg : 0 ≤ c.toRat := Decimal.mul?_nonneg hpos hq_nonneg hmul
    have hpow : (10 : ℚ) ^ (p.price + p.amount) ≤ 10 ^ p.total :=
      pow_le_pow_right₀ (by norm_num) hdigits
    rw [abs_of_nonneg hc_nonneg] at hbound
    exact absurd (hbound.trans (mul_le_mul_of_nonneg_left hpow hc_nonneg)) (not_le.2 hlt)

namespace Funded

variable (h : o.Funded p)

include h

/-- The number of insertion does not matter. -/
theorem numbered (n : UInt64) : ({ o with sequence := n } : Order).Funded p where
  measured :=
    { amount_digits := h.measured.amount_digits
      remaining_digits := h.measured.remaining_digits
      remaining_nonneg := h.measured.remaining_nonneg
      remaining_le := h.measured.remaining_le
      amount_lt := h.measured.amount_lt }
  amount_pos := h.amount_pos
  price_digits := h.price_digits
  price_pos := h.price_pos
  cost_lt := h.cost_lt

/-- Every part of an order has its cost in range, and so its price or quantity. -/
theorem cost_mul_lt (hle : q ≤ o.amount.toRat) : o.cost q * 10 ^ p.total < Decimal.bound :=
  (mul_le_mul_of_nonneg_right (cost_mono h.price_pos.le hle) (by positivity)).trans_lt h.cost_lt

/-- What is reserved for a part of an order is its exact cost. -/
theorem reserveFor_eq {quantity : Decimal} (hq : HasDigits p.amount quantity.toRat)
    (hnonneg : 0 ≤ quantity.toRat) (hle : quantity.toRat ≤ o.amount.toRat) :
    ∃ c, o.reserveFor quantity = .ok ⟨o.reserveAsset, c⟩ ∧ c.toRat = o.cost quantity.toRat := by
  have hlt := h.cost_mul_lt hle
  unfold reserveFor reserveAsset
  unfold cost at hlt ⊢
  cases hside : o.side with
  | sell => exact ⟨quantity, rfl, rfl⟩
  | buy =>
    rw [hside] at hlt
    have hdigits : p.price + p.amount ≤ p.total := by
      unfold Precision.total
      omega
    have hmul_nonneg := mul_nonneg h.price_pos.le hnonneg
    have hpow : (10 : ℚ) ^ (p.price + p.amount) ≤ 10 ^ p.total :=
      pow_le_pow_right₀ (by norm_num) hdigits
    have hrange : |o.price.toRat * quantity.toRat| * 10 ^ (p.price + p.amount) < Decimal.bound := by
      rw [abs_of_nonneg hmul_nonneg]
      exact (mul_le_mul_of_nonneg_left hpow hmul_nonneg).trans_lt hlt
    obtain ⟨c, hc, hv⟩ := Decimal.mul?_exact h.price_digits hq (hdigits.trans p.total_le) hrange
    refine ⟨c, ?_, hv⟩
    dsimp only
    rw [product_eq_ok_iff.2 hc]
    rfl

/-- What an order has locked is the cost of what remains of it. -/
theorem reserved_eq : o.reserved =
    if o.status.isTerminal then 0 else Finsupp.single o.account (o.cost o.remaining.toRat) := by
  obtain ⟨c, hc, hv⟩ := h.reserveFor_eq h.measured.remaining_digits h.measured.remaining_nonneg
    h.measured.remaining_le
  rw [reserved, hc, ← hv]
  rfl

theorem reserved_of_not_terminal (hs : o.status.isTerminal = false) :
    o.reserved = Finsupp.single o.account (o.cost o.remaining.toRat) := by
  rw [h.reserved_eq, hs]
  rfl

theorem reserved_of_terminal (hs : o.status.isTerminal = true) : o.reserved = 0 := by
  rw [h.reserved_eq, hs]
  rfl

theorem remaining_cost_nonneg : 0 ≤ o.cost o.remaining.toRat :=
  cost_nonneg h.price_pos.le h.measured.remaining_nonneg

/-- A transition leaves the funds of an order as they are, unless it finishes it. -/
theorem apply {t : Transition} {now : Instant} (ha : t.apply o now = .ok o') :
    o'.Funded p ∧ o'.account = o.account ∧ o'.remaining = o.remaining ∧
      o.status.isTerminal = false ∧ o'.cost o'.remaining.toRat = o.cost o.remaining.toRat := by
  have hm := h.measured.apply ha
  obtain ⟨status, notes, rfl, hcases⟩ := Transition.apply_eq_ok ha
  refine ⟨⟨hm, h.amount_pos, h.price_digits, h.price_pos, h.cost_lt⟩, rfl, rfl, ?_, rfl⟩
  obtain ⟨-, hs, -⟩ | ⟨-, hs, -⟩ | ⟨-, hs, -⟩ := hcases
  · rw [hs]
    rfl
  · cases hst : o.status <;> rw [hst] at hs <;> first | rfl | cases hs
  · exact hs

/-- A fill frees the cost of its quantity. -/
theorem fill {quantity : Decimal} {role : OrderRole} {now : Instant}
    (hq : HasDigits p.amount quantity.toRat)
    (hf : (o.fill quantity role now).run = .ok (.ok o')) :
    o'.Funded p ∧ o'.reserved + Finsupp.single o.account (o.cost quantity.toRat) = o.reserved := by
  obtain ⟨hm, -, hremaining⟩ := h.measured.fill
    ((Nat.le_add_right _ _).trans ((Nat.le_add_right _ _).trans p.total_le)) hq hf
  obtain ⟨hresting, -, -, r, -, rfl⟩ := Order.fill_eq_ok_iff.1 hf
  have ho' : Funded p _ := ⟨hm, h.amount_pos, h.price_digits, h.price_pos, h.cost_lt⟩
  have hopen : o.status.isTerminal = false := by
    cases hst : o.status <;> rw [hst] at hresting <;> first | rfl | cases hresting
  refine ⟨ho', ?_⟩
  rw [h.reserved_of_not_terminal hopen]
  have hcost : o.cost r.toRat + o.cost quantity.toRat = o.cost o.remaining.toRat := by
    rw [hremaining, cost_sub, sub_add_cancel]
  by_cases hz : r.isZero = true
  · -- a completed order has nothing locked, and nothing remains of it
    rw [ho'.reserved_of_terminal (by simp [hz, OrderStatus.isTerminal]), zero_add, ← hcost,
      Decimal.isZero_iff.1 hz, cost_zero, zero_add]
  · rw [ho'.reserved_of_not_terminal (by simp [hz, OrderStatus.isTerminal]), ← hcost]
    exact (Finsupp.single_add o.account (o.cost r.toRat) (o.cost quantity.toRat)).symm

end Funded

/-- The units of an amount are no more than those of its cost. -/
theorem amount_le_cost (hprice : HasDigits p.price o.price.toRat) (hprice_pos : 0 < o.price.toRat)
    (hpos : 0 ≤ o.amount.toRat) :
    o.amount.toRat * 10 ^ p.amount ≤ o.cost o.amount.toRat * 10 ^ p.total := by
  have hone := hprice.one_le hprice_pos
  have hrate : (1 : ℚ) ≤ 10 ^ p.rate := one_le_pow₀ (by norm_num)
  have hten : (1 : ℚ) ≤ 10 ^ p.price := one_le_pow₀ (by norm_num)
  have hunits : 0 ≤ o.amount.toRat * 10 ^ p.amount := by positivity
  rw [Precision.total, pow_add, pow_add]
  unfold cost
  cases o.side with
  | buy =>
    calc o.amount.toRat * 10 ^ p.amount
        ≤ o.amount.toRat * 10 ^ p.amount * (o.price.toRat * 10 ^ p.price * 10 ^ p.rate) :=
          le_mul_of_one_le_right hunits (one_le_mul_of_one_le_of_one_le hone hrate)
      _ = o.price.toRat * o.amount.toRat * (10 ^ p.amount * 10 ^ p.price * 10 ^ p.rate) := by ring
  | sell =>
    calc o.amount.toRat * 10 ^ p.amount
        ≤ o.amount.toRat * 10 ^ p.amount * (10 ^ p.price * 10 ^ p.rate) :=
          le_mul_of_one_le_right hunits (one_le_mul_of_one_le_of_one_le hten hrate)
      _ = o.amount.toRat * (10 ^ p.amount * 10 ^ p.price * 10 ^ p.rate) := by ring

/-- A new order whose reserve is in range is funded by it. -/
theorem funded_of_create {stamp : Stamp} {terms : OrderTerms} {reserve : Reserve}
    (h : create stamp terms = .ok o) (hamount : HasDigits p.amount o.amount.toRat)
    (hprice : HasDigits p.price o.price.toRat) (hreserve : o.reserveFor o.amount = .ok reserve)
    (hlt : reserve.amount.toRat * 10 ^ p.total < Decimal.bound) :
    o.Funded p ∧ HasDigits p.total reserve.amount.toRat ∧
      o.reserved = Finsupp.single (.locked o.userId reserve.asset) reserve.amount.toRat := by
  obtain ⟨hamount_pos, hprice_pos, -, ho⟩ := create_eq_ok_iff.1 h
  have hpos : 0 < o.amount.toRat := by
    rw [ho]
    exact Decimal.isPos_iff.1 hamount_pos
  have hprice_pos : 0 < o.price.toRat := by
    rw [ho]
    exact Decimal.isPos_iff.1 hprice_pos
  have hremaining : o.remaining = o.amount := by rw [ho]
  have hopen : o.status.isTerminal = false := by
    rw [ho]
    rfl
  obtain ⟨hasset, hcost⟩ := cost_of_reserveFor hprice hprice_pos.le hamount hpos.le hreserve hlt
  rw [hcost] at hlt ⊢
  have hmeasured : o.Measured p.amount := (Measured.of_create h hamount
    ((amount_le_cost hprice hprice_pos hpos.le).trans_lt hlt)).1
  have hfunded : o.Funded p := ⟨hmeasured, hpos, hprice, hprice_pos, hlt⟩
  refine ⟨hfunded, cost_digits hprice hamount, ?_⟩
  rw [hfunded.reserved_of_not_terminal hopen, hasset, hremaining]
  rfl

end Order

end Bourse
