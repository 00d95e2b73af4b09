import Bourse.Proofs.Reserve.Orders

/-!
# What a match makes payable

A match frees part of what its two orders have locked, and the settlement of its trade takes exactly
that: the seller's quantity, and the buyer's quantity at the buyer's own limit. What the trade costs
less than that comes back to the buyer as the release.
-/

namespace Bourse

/-- Fee rates of at most `p.rate` digits, of which none is more than the whole. -/
structure FeeSchedule.Within (p : Precision) (fees : FeeSchedule) : Prop where
  digits : ∀ role, HasDigits p.rate (fees.rateFor role).toRat
  nonneg : ∀ role, 0 ≤ (fees.rateFor role).toRat
  le_one : ∀ role, (fees.rateFor role).toRat ≤ 1

/-- The standard rates have three digits. -/
theorem FeeSchedule.standard_within {p : Precision} (hp : 3 ≤ p.rate) :
    FeeSchedule.standard.Within p := by
  have hrate : ∀ {m : ℤ} (hm : m.natAbs < Decimal.bound), 0 ≤ m → m ≤ 1000 →
      HasDigits p.rate (Decimal.ofMantissa m 3 hm (by decide)).toRat ∧
        0 ≤ (Decimal.ofMantissa m 3 hm (by decide)).toRat ∧
        (Decimal.ofMantissa m 3 hm (by decide)).toRat ≤ 1 := by
    intro m hm hpos hle
    have hv : (Decimal.ofMantissa m 3 hm (by decide)).toRat = m / 1000 := by
      rw [Decimal.toRat_ofMantissa]
      norm_num
    have hpos' : (0 : ℚ) ≤ m := by exact_mod_cast hpos
    have hle' : (m : ℚ) ≤ 1000 := by exact_mod_cast hle
    rw [hv]
    refine ⟨HasDigits.mono ⟨m, by norm_num⟩ hp, by positivity, by linarith⟩
  have hmaker := hrate (m := 1) (by decide) (by decide) (by decide)
  have htaker := hrate (m := 2) (by decide) (by decide) (by decide)
  refine ⟨fun role => ?_, fun role => ?_, fun role => ?_⟩ <;> cases role
  · exact hmaker.1
  · exact htaker.1
  · exact hmaker.1
  · exact hmaker.2.1
  · exact htaker.2.1
  · exact hmaker.2.1
  · exact hmaker.2.2
  · exact htaker.2.2
  · exact hmaker.2.2

/-- The product of two exact numbers that is in range. -/
theorem Decimal.exists_mul? {a b : Decimal} {i j d : ℕ} (ha : HasDigits i a.toRat)
    (hb : HasDigits j b.toRat) (hij : i + j ≤ d) (hd : d ≤ 28) (hnonneg : 0 ≤ a.toRat * b.toRat)
    (hlt : a.toRat * b.toRat * 10 ^ d < Decimal.bound) :
    ∃ c, a.mul? b = some c ∧ c.toRat = a.toRat * b.toRat := by
  have hpow : (10 : ℚ) ^ (i + j) ≤ 10 ^ d := pow_le_pow_right₀ (by norm_num) hij
  have hrange : |a.toRat * b.toRat| * 10 ^ (i + j) < Decimal.bound := by
    rw [abs_of_nonneg hnonneg]
    exact (mul_le_mul_of_nonneg_left hpow hnonneg).trans_lt hlt
  exact mul?_exact ha hb (hij.trans hd) hrange

theorem Decimal.toRat_of_mul? {a b c : Decimal} {i j d : ℕ} (h : a.mul? b = some c)
    (ha : HasDigits i a.toRat) (hb : HasDigits j b.toRat) (hij : i + j ≤ d) (hd : d ≤ 28)
    (hnonneg : 0 ≤ a.toRat * b.toRat) (hlt : a.toRat * b.toRat * 10 ^ d < Decimal.bound) :
    c.toRat = a.toRat * b.toRat := by
  obtain ⟨c', hc', hv⟩ := exists_mul? ha hb hij hd hnonneg hlt
  rw [h] at hc'
  obtain rfl := Option.some.inj hc'
  exact hv

/-- A fee is exact, and part of what it is taken from. -/
theorem FeeSchedule.Within.fee_exact {p : Precision} {fees : FeeSchedule} (h : fees.Within p)
    {a c : Decimal} {i : ℕ} {role : OrderRole} (hmul : a.mul? (fees.rateFor role) = some c)
    (ha : HasDigits i a.toRat) (hi : i + p.rate ≤ p.total) (hnonneg : 0 ≤ a.toRat)
    (hlt : a.toRat * 10 ^ p.total < Decimal.bound) :
    HasDigits p.total c.toRat ∧ 0 ≤ c.toRat ∧ c.toRat ≤ a.toRat := by
  have hfee_nonneg := mul_nonneg hnonneg (h.nonneg role)
  have hle : a.toRat * (fees.rateFor role).toRat ≤ a.toRat :=
    mul_le_of_le_one_right hnonneg (h.le_one role)
  have hfee_lt : a.toRat * (fees.rateFor role).toRat * 10 ^ p.total < Decimal.bound :=
    (mul_le_mul_of_nonneg_right hle (by positivity)).trans_lt hlt
  have hv := Decimal.toRat_of_mul? hmul ha (h.digits role) hi p.total_le hfee_nonneg hfee_lt
  rw [hv]
  exact ⟨(ha.mul (h.digits role)).mono hi, hfee_nonneg, hle⟩

namespace Tradable

variable {maker taker : Order} {quantity : Decimal} (h : Tradable maker taker quantity)

include h

theorem sum_pair {M : Type} [AddCommMonoid M] (f : Order → M) :
    f h.buy + f h.sell = f maker + f taker := by
  obtain ⟨-, -, hpair⟩ | ⟨-, -, hpair⟩ := h.pair_cases <;> rw [buy, sell, hpair]
  exact add_comm _ _

theorem buy_cost (q : ℚ) : h.buy.cost q = h.buy.price.toRat * q := by
  rw [Order.cost, h.buy_side]

theorem sell_cost (q : ℚ) : h.sell.cost q = q := by
  rw [Order.cost, h.sell_side]

theorem buy_account : h.buy.account = .locked h.buy.userId maker.symbol.quote := by
  have hsymbol := (h.forall_pair (P := fun o => o.symbol = maker.symbol) rfl h.taker_symbol).1
  rw [Order.account, Order.reserveAsset, h.buy_side, ← hsymbol]

theorem sell_account : h.sell.account = .locked h.sell.userId maker.symbol.base := by
  have hsymbol := (h.forall_pair (P := fun o => o.symbol = maker.symbol) rfl h.taker_symbol).2
  rw [Order.account, Order.reserveAsset, h.sell_side, ← hsymbol]

end Tradable

/-- The release of a buyer is what the limit is above the price, for the whole quantity. -/
theorem SettlementRecord.create_eq (now : Instant) {t : Trade} {limit : Decimal} {p : Precision}
    (hlimit : HasDigits p.price limit.toRat) (hprice : HasDigits p.price t.price.toRat)
    (hq : HasDigits p.amount t.quantity.toRat) (hq_pos : 0 < t.quantity.toRat)
    (hprice_nonneg : 0 ≤ t.price.toRat) (hle : t.price.toRat ≤ limit.toRat)
    (hlt : limit.toRat * t.quantity.toRat * 10 ^ p.total < Decimal.bound) :
    ∃ r, SettlementRecord.create now t limit = .ok r ∧ r.trade = t ∧ r.status = .pending ∧
      r.buyerRelease.toRat = (limit.toRat - t.price.toRat) * t.quantity.toRat := by
  have hbetter : 0 ≤ limit.toRat - t.price.toRat := sub_nonneg.2 hle
  have hprice_le : p.price ≤ 28 :=
    ((Nat.le_add_left _ _).trans (Nat.le_add_right _ _)).trans p.total_le
  have hsub_lt : |limit.toRat - t.price.toRat| * 10 ^ p.price < Decimal.bound := by
    have hone := hq.one_le hq_pos
    have hrate : (1 : ℚ) ≤ 10 ^ p.rate := one_le_pow₀ (by norm_num)
    have hfactor := one_le_mul_of_one_le_of_one_le hone hrate
    have hlimit_nonneg := hprice_nonneg.trans hle
    rw [abs_of_nonneg hbetter]
    calc (limit.toRat - t.price.toRat) * 10 ^ p.price ≤ limit.toRat * 10 ^ p.price :=
          mul_le_mul_of_nonneg_right (by linarith) (by positivity)
      _ ≤ limit.toRat * 10 ^ p.price * (t.quantity.toRat * 10 ^ p.amount * 10 ^ p.rate) :=
          le_mul_of_one_le_right (by positivity) hfactor
      _ = limit.toRat * t.quantity.toRat * 10 ^ p.total := by
          rw [Precision.total, pow_add, pow_add]
          ring
      _ < Decimal.bound := hlt
  obtain ⟨c, hc, hv⟩ := Decimal.sub_exact hlimit hprice hprice_le hsub_lt
  have hmax : (c.max Decimal.zero).toRat = limit.toRat - t.price.toRat := by
    rw [Decimal.toRat_max, hv, Decimal.toRat_zero, max_eq_left hbetter]
  have hprod_nonneg : 0 ≤ (c.max Decimal.zero).toRat * t.quantity.toRat := by
    rw [hmax]
    exact mul_nonneg hbetter hq_pos.le
  have hprod_lt : (c.max Decimal.zero).toRat * t.quantity.toRat * 10 ^ p.total < Decimal.bound := by
    rw [hmax]
    refine lt_of_le_of_lt (mul_le_mul_of_nonneg_right ?_ (by positivity)) hlt
    exact mul_le_mul_of_nonneg_right (by linarith) hq_pos.le
  obtain ⟨release, hrelease, hrelease_eq⟩ := Decimal.exists_mul? (i := p.price) (j := p.amount)
    (d := p.total) (by rw [hmax]; exact hlimit.sub hprice) hq
    (by unfold Precision.total; omega) p.total_le hprod_nonneg hprod_lt
  exact ⟨_, create_eq_ok_iff.2 ⟨c, hc, release, hrelease, rfl⟩, rfl, rfl,
    by rw [hrelease_eq, hmax]⟩

namespace Tradable

variable {maker taker : Order} {quantity : Decimal} (h : Tradable maker taker quantity)
  {p : Precision} {fees : FeeSchedule} {stamp : Stamp} {t : Trade}

include h

/-- The quantity of a match is part of each order, and its cost to the buyer is in range. -/
theorem quantity_lt (hm : maker.Funded p) (ht : taker.Funded p) :
    h.buy.price.toRat * quantity.toRat * 10 ^ p.total < Decimal.bound ∧
      quantity.toRat * 10 ^ p.total < Decimal.bound := by
  obtain ⟨hbuy, hsell⟩ := h.forall_pair hm ht
  obtain ⟨hbuy_room, hsell_room⟩ := h.forall_pair (P := fun o => quantity.toRat ≤ o.remaining.toRat)
    (Decimal.not_lt_iff.1 h.maker_room) (Decimal.not_lt_iff.1 h.taker_room)
  have hbuy_lt := hbuy.cost_mul_lt (hbuy_room.trans hbuy.measured.remaining_le)
  have hsell_lt := hsell.cost_mul_lt (hsell_room.trans hsell.measured.remaining_le)
  rw [h.buy_cost] at hbuy_lt
  rw [h.sell_cost] at hsell_lt
  exact ⟨hbuy_lt, hsell_lt⟩

/-- The trade of a match is payable, and its settlement takes what the match frees. -/
theorem exists_record (hm : maker.Funded p) (ht : taker.Funded p) (hfees : fees.Within p)
    (hq : HasDigits p.amount quantity.toRat)
    (hc : Trade.create stamp maker taker quantity fees = .ok t) (now : Instant) :
    ∃ r, SettlementRecord.create now t h.buy.price = .ok r ∧ r.trade = t ∧ r.status = .pending ∧
      Ledger.Payable p.total t r.buyerRelease ∧
      t.debits r.buyerRelease =
        Finsupp.single h.buy.account (h.buy.cost quantity.toRat) +
          Finsupp.single h.sell.account (h.sell.cost quantity.toRat) := by
  have hpos := Decimal.isPos_iff.1 h.quantity_pos
  obtain ⟨hbuy, -⟩ := h.forall_pair hm ht
  obtain ⟨-, hprice_le⟩ := h.price_between
  obtain ⟨hcost_lt, hquantity_lt⟩ := h.quantity_lt hm ht
  obtain ⟨-, -, -, quote, hquote, buyerFee, hbuyerFee, sellerFee, hsellerFee, htrade⟩ :=
    Trade.create_eq_ok_iff.1 hc
  have hprice : t.price = maker.price := by rw [htrade]
  have hquantity : t.quantity = quantity := by rw [htrade]
  have hquote_nonneg := mul_nonneg hm.price_pos.le hpos.le
  have hquote_lt : maker.price.toRat * quantity.toRat * 10 ^ p.total < Decimal.bound := by
    refine lt_of_le_of_lt (mul_le_mul_of_nonneg_right ?_ (by positivity)) hcost_lt
    exact mul_le_mul_of_nonneg_right hprice_le hpos.le
  have hdigits : p.price + p.amount ≤ p.total := by
    unfold Precision.total
    omega
  have hquote_eq := Decimal.toRat_of_mul? hquote hm.price_digits hq hdigits p.total_le hquote_nonneg
    hquote_lt
  have hquote_digits : HasDigits (p.price + p.amount) quote.toRat := by
    rw [hquote_eq]
    exact hm.price_digits.mul hq
  obtain ⟨hbuyerFee_digits, hbuyerFee_nonneg, hbuyerFee_le⟩ := hfees.fee_exact hbuyerFee hq
    (by unfold Precision.total; omega) hpos.le hquantity_lt
  obtain ⟨hsellerFee_digits, hsellerFee_nonneg, hsellerFee_le⟩ :=
    hfees.fee_exact hsellerFee hquote_digits (by unfold Precision.total; omega)
      (by rw [hquote_eq]; exact hquote_nonneg) (by rw [hquote_eq]; exact hquote_lt)
  obtain ⟨r, hr, hr_trade, hstatus, hrelease⟩ := SettlementRecord.create_eq now (t := t)
    hbuy.price_digits (hprice ▸ hm.price_digits) (hquantity ▸ hq) (hquantity ▸ hpos)
    (hprice ▸ hm.price_pos.le) (hprice ▸ hprice_le) (hquantity ▸ hcost_lt)
  rw [hprice, hquantity] at hrelease
  have hrelease_nonneg : 0 ≤ r.buyerRelease.toRat := by
    rw [hrelease]
    exact mul_nonneg (sub_nonneg.2 hprice_le) hpos.le
  have hrelease_digits : HasDigits p.total r.buyerRelease.toRat := by
    rw [hrelease]
    exact ((hbuy.price_digits.sub hm.price_digits).mul hq).mono hdigits
  have hquantity_digits : HasDigits p.total quantity.toRat :=
    hq.mono (by unfold Precision.total; omega)
  have hsum : quote.toRat + r.buyerRelease.toRat = h.buy.cost quantity.toRat := by
    rw [hrelease, hquote_eq, h.buy_cost]
    ring
  refine ⟨r, hr, hr_trade, hstatus, ?_, ?_⟩
  · rw [htrade]
    exact ⟨hrelease_digits, hquantity_digits, hquote_digits.mono hdigits, hbuyerFee_digits,
      hsellerFee_digits, hrelease_nonneg, hbuyerFee_nonneg, hbuyerFee_le, hsellerFee_nonneg,
      hsellerFee_le⟩
  · rw [Trade.debits, h.buy_account, h.sell_account, h.sell_cost, ← hsum, htrade]

end Tradable

end Bourse
