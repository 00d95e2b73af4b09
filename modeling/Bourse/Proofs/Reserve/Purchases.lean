import Bourse.Proofs.Decimal.Exact
import Bourse.Proofs.Store.Regular

/-!
# What the trades of a buy take from its reserve

A buy has the cost of its amount locked at its own limit. The settlement of each of its trades takes
from that what the trade costs at the maker's price, and the release. Where these products are
decimal numbers, the settlements of all the trades of a buy take exactly what it has locked. Where
they are not, each of them is rounded on its own, and together they may come to more.
-/

namespace Bourse

/-- A trade of a buy, with its settlement record. -/
structure Purchase (o : Order) where
  stamp : Stamp
  maker : Order
  taker : Order
  quantity : Decimal
  fees : FeeSchedule
  trade : Trade
  recordedAt : Instant
  record : SettlementRecord
  /-- The buy of the pair is the order as the store has numbered it, at any time of its life. -/
  buyer : { o with sequence := (Trade.buyAndSell maker taker).1.sequence }.SameTerms
    (Trade.buyAndSell maker taker).1
  price_pos : 0 < maker.price.toRat
  price_le : maker.price.toRat ≤ o.price.toRat
  traded : Trade.create stamp maker taker quantity fees = .ok trade
  recorded : SettlementRecord.create recordedAt trade (Trade.buyAndSell maker taker).1.price =
    .ok record

namespace Purchase

variable {o : Order}

/-- What the settlement takes from the buyer's locked balance. -/
def debit (p : Purchase o) : ℚ := p.record.trade.quoteQuantity.toRat + p.record.buyerRelease.toRat

/-- The cost at the maker's price, and what it is less than at the limit, are decimal numbers. -/
structure Exact (p : Purchase o) : Prop where
  quote : IsDecimal (p.maker.price.toRat * p.quantity.toRat)
  improvement : IsDecimal (o.price.toRat - p.maker.price.toRat)
  release : IsDecimal ((o.price.toRat - p.maker.price.toRat) * p.quantity.toRat)

/-! ### A single trade -/

section

variable (p : Purchase o)

theorem quantity_pos : 0 < p.quantity.toRat :=
  Decimal.isPos_iff.1 (Trade.create_eq_ok_iff.1 p.traded).2.2.1

theorem trade_eq : p.record.trade = p.trade := by
  obtain ⟨improvement, -, release, -, hrecord⟩ := SettlementRecord.create_eq_ok_iff.1 p.recorded
  rw [hrecord]

/-- The cost of the trade is rounded from the product of the maker's price and the quantity. -/
theorem mul?_quantity : p.maker.price.mul? p.quantity = some p.record.trade.quoteQuantity := by
  obtain ⟨-, -, -, quote, hquote, fee, -, fee', -, htrade⟩ := Trade.create_eq_ok_iff.1 p.traded
  rw [p.trade_eq, htrade]
  exact hquote

/-- The release is rounded from the product of the quantity and what the price is better by, which
is rounded too. -/
theorem exists_improvement : ∃ improvement, o.price.sub p.maker.price = .ok improvement ∧
    (improvement.max Decimal.zero).mul? p.quantity = some p.record.buyerRelease := by
  obtain ⟨improvement, himprovement, release, hrelease, hrecord⟩ :=
    SettlementRecord.create_eq_ok_iff.1 p.recorded
  obtain ⟨-, -, -, quote, -, fee, -, fee', -, htrade⟩ := Trade.create_eq_ok_iff.1 p.traded
  have hprice : p.trade.price = p.maker.price := by rw [htrade]
  have hquantity : p.trade.quantity = p.quantity := by rw [htrade]
  rw [hprice, p.buyer.price_eq] at himprovement
  rw [hquantity] at hrelease
  refine ⟨improvement, himprovement, ?_⟩
  rw [hrecord]
  exact hrelease

theorem release_nonneg : 0 ≤ p.record.buyerRelease.toRat := by
  obtain ⟨improvement, -, hmul⟩ := p.exists_improvement
  refine Decimal.mul?_nonneg ?_ p.quantity_pos.le hmul
  rw [Decimal.toRat_max, Decimal.toRat_zero]
  exact le_max_right _ _

/-- The trade is paid by the owner of the order, in the asset that the order has locked. -/
theorem payer_eq : p.record.trade.buyerUserId = o.userId ∧
    p.record.trade.symbol.quote = o.symbol.quote := by
  obtain ⟨-, hmarket, -, quote, -, fee, -, fee', -, htrade⟩ := Trade.create_eq_ok_iff.1 p.traded
  have hsymbol : p.maker.symbol = (Trade.buyAndSell p.maker p.taker).1.symbol := by
    unfold Trade.buyAndSell
    cases p.maker.side
    · rfl
    · exact congrArg Market.symbol hmarket
  rw [p.trade_eq, htrade]
  exact ⟨p.buyer.userId_eq, by rw [hsymbol, p.buyer.symbol_eq]⟩

end

/-- A settlement takes the quantity at the buyer's own limit. -/
theorem Exact.debit_eq {p : Purchase o} (h : p.Exact) :
    p.debit = o.price.toRat * p.quantity.toRat := by
  have hquote := (Decimal.mul?_eq_iff_isDecimal p.mul?_quantity).2 h.quote
  obtain ⟨improvement, hsub, hmul⟩ := p.exists_improvement
  have himprovement := (Decimal.sub_eq_iff_isDecimal hsub).2 h.improvement
  have hmax : (improvement.max Decimal.zero).toRat = o.price.toRat - p.maker.price.toRat := by
    rw [Decimal.toRat_max, Decimal.toRat_zero, himprovement, max_eq_left]
    exact sub_nonneg.2 p.price_le
  have hrelease := (Decimal.mul?_eq_iff_isDecimal hmul).2 (by rw [hmax]; exact h.release)
  rw [debit, hquote, hrelease, hmax]
  ring

/-- Prices of `i` digits and a quantity of `j` digits are exact, if the cost at the limit has room
for all of these digits. -/
theorem exact_of_hasDigits {i j : ℕ} {p : Purchase o} (hlimit : HasDigits i o.price.toRat)
    (hprice : HasDigits i p.maker.price.toRat) (hquantity : HasDigits j p.quantity.toRat)
    (hij : i + j ≤ 28)
    (hlt : o.price.toRat * p.quantity.toRat * 10 ^ (i + j) < Decimal.bound) : p.Exact := by
  have hquantity_pos := p.quantity_pos
  have hbetter := sub_nonneg.2 p.price_le
  have hlimit_pos := p.price_pos.trans_le p.price_le
  -- Less than the cost at the limit has room as well.
  have hroom : ∀ x : ℚ, 0 ≤ x → x ≤ o.price.toRat →
      |x * p.quantity.toRat| * 10 ^ (i + j) < Decimal.bound := by
    intro x hx hle
    rw [abs_of_nonneg (mul_nonneg hx hquantity_pos.le)]
    refine lt_of_le_of_lt ?_ hlt
    exact mul_le_mul_of_nonneg_right (mul_le_mul_of_nonneg_right hle hquantity_pos.le)
      (by positivity)
  refine ⟨(hprice.mul hquantity).isDecimal hij (hroom _ p.price_pos.le p.price_le),
    (hlimit.sub hprice).isDecimal (by omega) ?_,
    ((hlimit.sub hprice).mul hquantity).isDecimal hij (hroom _ hbetter (by linarith [p.price_pos]))⟩
  have hone := hquantity.one_le hquantity_pos
  rw [abs_of_nonneg hbetter]
  calc (o.price.toRat - p.maker.price.toRat) * 10 ^ i
      ≤ o.price.toRat * 10 ^ i :=
        mul_le_mul_of_nonneg_right (by linarith [p.price_pos]) (by positivity)
    _ ≤ o.price.toRat * 10 ^ i * (p.quantity.toRat * 10 ^ j) :=
        le_mul_of_one_le_right (by positivity) hone
    _ = o.price.toRat * p.quantity.toRat * 10 ^ (i + j) := by
        rw [pow_add]
        ring
    _ < Decimal.bound := hlt

/-- Each match of a buy is a purchase. -/
theorem exists_purchase {maker taker : Order} {quantity : Decimal} {fees : FeeSchedule}
    (h : Tradable maker taker quantity) (hmaker : maker.Regular) (htaker : taker.Regular)
    (hfees : fees.Shares) (hbuyer : { o with sequence := h.buy.sequence }.SameTerms h.buy) :
    ∃ p : Purchase o, p.maker = maker ∧ p.quantity = quantity := by
  obtain ⟨m, hm⟩ := h.exists_match hmaker hfees ⟨Uuid.ofNat 0, Instant.epoch⟩
  obtain ⟨-, htrade, -, -⟩ := Match.execute_eq_ok_iff.1 hm
  obtain ⟨-, -, -, quote, -, fee, -, fee', -, htrade_eq⟩ := Trade.create_eq_ok_iff.1 htrade
  obtain ⟨r, hr⟩ := h.exists_settlementRecord hmaker htaker (t := m.trade) (by rw [htrade_eq])
    (by rw [htrade_eq]) Instant.epoch
  have hle := h.price_between.2
  rw [hbuyer.price_eq] at hle
  exact ⟨⟨_, maker, taker, quantity, fees, m.trade, Instant.epoch, r, hbuyer, hmaker.price_pos, hle,
    htrade, hr⟩, rfl, rfl⟩

/-! ### All trades together -/

theorem sum_debit_eq {purchases : List (Purchase o)} (h : ∀ p ∈ purchases, p.Exact) :
    (purchases.map debit).sum =
      o.price.toRat * (purchases.map fun p => p.quantity.toRat).sum := by
  induction purchases with
  | nil => simp
  | cons p purchases ih =>
    obtain ⟨hp, hrest⟩ := List.forall_mem_cons.1 h
    rw [List.map_cons, List.sum_cons, List.map_cons, List.sum_cons, ih hrest, hp.debit_eq]
    ring

/-- Where nothing is rounded, the settlements of trades that make up the whole of a buy take exactly
what it has locked at its intake. None of them is short of what those before it have left. -/
theorem sum_debit_eq_reserve {stamp : Stamp} {terms : OrderTerms}
    (h : Order.create stamp terms = .ok o) (hside : o.side = .buy)
    (hcost : IsDecimal (o.price.toRat * o.amount.toRat)) {purchases : List (Purchase o)}
    (hexact : ∀ p ∈ purchases, p.Exact)
    (hsum : (purchases.map fun p => p.quantity.toRat).sum = o.amount.toRat) :
    ∃ reserve, o.reserveFor o.amount = .ok reserve ∧
      (purchases.map debit).sum = reserve.amount.toRat ∧
      (∀ p ∈ purchases, p.record.trade.buyerUserId = o.userId ∧
        p.record.trade.symbol.quote = reserve.asset) ∧
      ∀ before p after, purchases = before ++ p :: after →
        p.debit ≤ reserve.amount.toRat - (before.map debit).sum := by
  obtain ⟨-, -, ⟨cost, hmul⟩, ho⟩ := Order.create_eq_ok_iff.1 h
  have hmul' : o.price.mul? o.amount = some cost := by rw [ho, hmul]
  have hcost_eq := (Decimal.mul?_eq_iff_isDecimal hmul').2 hcost
  have hreserve : o.reserveFor o.amount = .ok ⟨o.symbol.quote, cost⟩ := by
    rw [Order.reserveFor, hside, product, hmul']
    rfl
  have htotal : (purchases.map debit).sum = cost.toRat := by
    rw [sum_debit_eq hexact, hsum, hcost_eq]
  refine ⟨_, hreserve, htotal, fun p _ => p.payer_eq, ?_⟩
  rintro before p after rfl
  have hafter : 0 ≤ (after.map debit).sum := by
    refine List.sum_nonneg ?_
    intro x hx
    obtain ⟨p', hp', rfl⟩ := List.mem_map.1 hx
    have hmem : p' ∈ before ++ p :: after :=
      List.mem_append_right before (List.mem_cons_of_mem p hp')
    rw [(hexact p' hmem).debit_eq]
    exact mul_nonneg (p'.price_pos.trans_le p'.price_le).le p'.quantity_pos.le
  rw [List.map_append, List.sum_append, List.map_cons, List.sum_cons] at htotal
  show p.debit ≤ cost.toRat - _
  linarith

/-! ### Two sells for one buy -/

/-- A buy of gold meets a sell in the book. -/
theorem exists_purchase_gold (number : Nat) (quantity price : Decimal) {amount limit : Decimal}
    (hbuy : ∃ stamp terms, Order.create stamp terms = .ok (.gold 1 .buy amount limit 1))
    (hsell : ∃ stamp terms, Order.create stamp terms = .ok (.gold number .sell quantity price 2))
    (hquantity : ¬amount < quantity) (hprice : ¬limit < price) :
    ∃ p : Purchase (.gold 1 .buy amount limit 1), p.maker.price = price ∧ p.quantity = quantity := by
  obtain ⟨stamp, terms, hbuy⟩ := hbuy
  obtain ⟨stamp', terms', hsell⟩ := hsell
  have hb := Order.Regular.of_create hbuy
  have hs := Order.Regular.of_create hsell
  have hpos : quantity.isPos = true := by
    obtain ⟨hamount, -, -, heq⟩ := Order.create_eq_ok_iff.1 hsell
    have hamount_eq : quantity = terms'.amount := congrArg Order.amount heq
    rwa [hamount_eq]
  let maker : Order := { Order.gold number .sell quantity price 2 with status := .confirmed }
  let taker : Order := { Order.gold 1 .buy amount limit 1 with status := .confirmed }
  have htradable : Tradable maker taker quantity :=
    ⟨hpos, rfl, rfl, Decimal.not_lt_iff.2 (le_refl _), hquantity, fun e => (by cases e), rfl, hprice⟩
  obtain ⟨p, hmaker, hq⟩ := exists_purchase htradable
    ⟨hs.price_pos, hs.remaining_nonneg, hs.remaining_le, hs.cost_lt⟩
    ⟨hb.price_pos, hb.remaining_nonneg, hb.remaining_le, hb.cost_lt⟩
    FeeSchedule.zero_fractions.shares
    (o := .gold 1 .buy amount limit 1) ⟨rfl, rfl, rfl, rfl, rfl, rfl, rfl, rfl, rfl⟩
  exact ⟨p, congrArg Order.price hmaker, hq⟩

/-- Two ounces are bought for three dollars each, of which one is sold for two. -/
theorem sum_debit_eq_reserve_twoSells :
    let o : Order := .gold 1 .buy (.ofWord 2) (.ofWord 3) 1
    (∃ stamp terms, Order.create stamp terms = .ok o) ∧
    ∃ (purchases : List (Purchase o)) (reserve : Reserve),
      (purchases.map fun p => p.maker.price) = [.ofWord 2, .ofWord 3] ∧
      (purchases.map fun p => p.quantity.toRat).sum = o.amount.toRat ∧
      o.reserveFor o.amount = .ok reserve ∧ (purchases.map debit).sum = reserve.amount.toRat := by
  intro o
  have hcreate : ∃ stamp terms, Order.create stamp terms = .ok o :=
    Order.create_gold 1 .buy 1 (by decide) (by decide) ⟨.ofWord 6, by decide +kernel⟩
  obtain ⟨p, hprice, hquantity⟩ := exists_purchase_gold 2 .one (.ofWord 2) hcreate
    (Order.create_gold 2 .sell 2 (by decide) (by decide) ⟨.ofWord 2, by decide +kernel⟩)
    (by decide) (by decide)
  obtain ⟨p', hprice', hquantity'⟩ := exists_purchase_gold 3 .one (.ofWord 3) hcreate
    (Order.create_gold 3 .sell 2 (by decide) (by decide) ⟨.ofWord 3, by decide +kernel⟩)
    (by decide) (by decide)
  have hone : Decimal.one.toRat = 1 := Decimal.toRat_ofWord 1
  have hthree : o.price.toRat = 3 := Decimal.toRat_ofWord 3
  have htwo : o.amount.toRat = 2 := Decimal.toRat_ofWord 2
  have hsix : (Decimal.ofWord 6).toRat = 6 := Decimal.toRat_ofWord 6
  -- Whole numbers have no digits behind the point.
  have hwhole : ∀ x : Purchase o, x.quantity = .one → (∃ n, x.maker.price = .ofWord n) →
      x.Exact := by
    rintro x hx ⟨n, hn⟩
    have hlimit : HasDigits 0 o.price.toRat := (Decimal.ofWord 3).hasDigits_scale
    have hprice : HasDigits 0 x.maker.price.toRat := hn ▸ (Decimal.ofWord n).hasDigits_scale
    have hquantity : HasDigits 0 x.quantity.toRat := hx ▸ Decimal.one.hasDigits_scale
    refine exact_of_hasDigits hlimit hprice hquantity (by decide) ?_
    rw [hx, hone, hthree, bound_eq]
    norm_num
  have hexact : ∀ x ∈ [p, p'], x.Exact := by
    simp only [List.forall_mem_cons, List.not_mem_nil, false_imp_iff, implies_true, and_true]
    exact ⟨hwhole p hquantity ⟨2, hprice⟩, hwhole p' hquantity' ⟨3, hprice'⟩⟩
  have hsum : ([p, p'].map fun x => x.quantity.toRat).sum = o.amount.toRat := by
    simp only [List.map_cons, List.map_nil, List.sum_cons, List.sum_nil, hquantity, hquantity']
    rw [hone, htwo]
    norm_num
  have hcost : IsDecimal (o.price.toRat * o.amount.toRat) :=
    ⟨.ofWord 6, by rw [hsix, hthree, htwo]; norm_num⟩
  obtain ⟨stamp, terms, hcreated⟩ := hcreate
  obtain ⟨reserve, hreserve, htotal, -, -⟩ :=
    sum_debit_eq_reserve hcreated rfl hcost hexact hsum
  exact ⟨⟨stamp, terms, hcreated⟩, [p, p'], reserve, by simp [hprice, hprice'], hsum, hreserve,
    htotal⟩

/-- A ninth of a dollar, as far as there are digits for it. -/
def ninth : Decimal := (Decimal.ofText? "0.1111111111111111111111111111").getD .zero

def half : Decimal := (Decimal.ofText? "0.5").getD .zero

/-- Half a ninth of a dollar, rounded up. -/
def halfNinth : Decimal := (Decimal.ofText? "0.0555555555555555555555555556").getD .zero

/-- An ounce at a ninth of a dollar is bought in two halves. The cost of both is rounded up. -/
theorem reserve_lt_sum_debit_halves :
    let o : Order := .gold 1 .buy .one ninth 1
    (∃ stamp terms, Order.create stamp terms = .ok o) ∧
    ∃ (purchases : List (Purchase o)) (reserve : Reserve),
      (purchases.map fun p => p.quantity.toRat).sum = o.amount.toRat ∧
      o.reserveFor o.amount = .ok reserve ∧ reserve.amount.toRat < (purchases.map debit).sum := by
  intro o
  have hround : ninth.mul? half = some halfNinth := by decide +kernel
  have hcreate : ∃ stamp terms, Order.create stamp terms = .ok o :=
    Order.create_gold 1 .buy 1 (by decide) (by decide +kernel) ⟨ninth, by decide +kernel⟩
  have hpurchase : ∀ number, ∃ p : Purchase o, p.maker.price = ninth ∧ p.quantity = half :=
    fun number => exists_purchase_gold number half ninth hcreate
      (Order.create_gold number .sell 2 (by decide +kernel) (by decide +kernel) ⟨_, hround⟩)
      (by decide +kernel) (by decide +kernel)
  have hninth : ninth.toRat = 1111111111111111111111111111 / 10 ^ 28 := by
    rw [Decimal.toRat_of_mantissa
      (show ninth.mantissa = 1111111111111111111111111111 by decide +kernel)
      (show ninth.scale = 28 by decide +kernel)]
    norm_num
  have hhalfNinth : halfNinth.toRat = 555555555555555555555555556 / 10 ^ 28 := by
    rw [Decimal.toRat_of_mantissa
      (show halfNinth.mantissa = 555555555555555555555555556 by decide +kernel)
      (show halfNinth.scale = 28 by decide +kernel)]
    norm_num
  have hhalf : half.toRat = 1 / 2 := by
    rw [Decimal.toRat_of_mantissa (show half.mantissa = 5 by decide +kernel)
      (show half.scale = 1 by decide +kernel)]
    norm_num
  have hone : Decimal.one.toRat = 1 := Decimal.toRat_ofWord 1
  have hdebit : ∀ p : Purchase o, p.maker.price = ninth → p.quantity = half →
      halfNinth.toRat ≤ p.debit := by
    intro p hprice hquantity
    have hmul := p.mul?_quantity
    rw [hprice, hquantity, hround] at hmul
    rw [debit, ← Option.some.inj hmul]
    exact le_add_of_nonneg_right p.release_nonneg
  obtain ⟨p, hprice, hquantity⟩ := hpurchase 2
  obtain ⟨p', hprice', hquantity'⟩ := hpurchase 3
  refine ⟨hcreate, [p, p'], ⟨"USD", ninth⟩, ?_, by decide +kernel, ?_⟩
  · simp only [List.map_cons, List.map_nil, List.sum_cons, List.sum_nil, hquantity, hquantity']
    show _ = Decimal.one.toRat
    rw [hhalf, hone]
    norm_num
  · have h := hdebit p hprice hquantity
    have h' := hdebit p' hprice' hquantity'
    simp only [List.map_cons, List.map_nil, List.sum_cons, List.sum_nil]
    rw [hhalfNinth] at h h'
    rw [hninth]
    linarith

end Purchase

end Bourse
