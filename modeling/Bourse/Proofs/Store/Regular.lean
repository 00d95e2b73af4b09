import Bourse.Proofs.Decimal.Sums
import Bourse.Proofs.Store.Calls

/-!
# Matches that take place

The cost of a new order is a decimal number, and from then on an order only gets smaller. Whatever
calls were made to a store, two of its orders that are tradable are matched when they are asked to:
no product is too large, and nothing overflows.
-/

namespace Bourse

/-- An order of which some part remains, and whose cost is in range. -/
structure Order.Regular (o : Order) : Prop where
  price_pos : 0 < o.price.toRat
  remaining_nonneg : 0 ≤ o.remaining.toRat
  remaining_le : o.remaining.toRat ≤ o.amount.toRat
  cost_lt : o.price.toRat * o.amount.toRat < Decimal.bound - 1 / 2

/-- Nobody pays a fee larger than the whole. -/
structure FeeSchedule.Shares (fees : FeeSchedule) : Prop where
  nonneg : ∀ role, 0 ≤ (fees.rateFor role).toRat
  le_one : ∀ role, (fees.rateFor role).toRat ≤ 1

/-- Nobody pays a fee as large as the whole. -/
structure FeeSchedule.Fractions (fees : FeeSchedule) : Prop where
  nonneg : ∀ role, 0 ≤ (fees.rateFor role).toRat
  lt_one : ∀ role, (fees.rateFor role).toRat < 1

theorem FeeSchedule.Fractions.shares {fees : FeeSchedule} (h : fees.Fractions) : fees.Shares :=
  ⟨h.nonneg, fun role => (h.lt_one role).le⟩

theorem FeeSchedule.zero_fractions : FeeSchedule.zero.Fractions := by
  have hrate : ∀ role, FeeSchedule.zero.rateFor role = Decimal.zero := by
    intro role
    cases role <;> rfl
  constructor
  · intro role
    rw [hrate, Decimal.toRat_zero]
  · intro role
    rw [hrate, Decimal.toRat_zero]
    norm_num

/-- The standard rates are a thousandth and two. -/
theorem FeeSchedule.standard_fractions : FeeSchedule.standard.Fractions := by
  have hrate : ∀ role, (FeeSchedule.standard.rateFor role).toRat = 1 / 1000 ∨
      (FeeSchedule.standard.rateFor role).toRat = 2 / 1000 := by
    intro role
    cases role with
    | taker =>
      right
      refine (Decimal.toRat_ofMantissa _ _).trans ?_
      norm_num
    | _ =>
      left
      refine (Decimal.toRat_ofMantissa _ _).trans ?_
      norm_num
  constructor
  · intro role
    rcases hrate role with h | h <;> rw [h] <;> norm_num
  · intro role
    rcases hrate role with h | h <;> rw [h] <;> norm_num

namespace Order.Regular

variable {o o' : Order} {stamp : Stamp} {now : Instant} {q : Decimal}

theorem of_create {terms : OrderTerms} (h : Order.create stamp terms = .ok o) : o.Regular := by
  obtain ⟨hamount, hprice, hcost, rfl⟩ := Order.create_eq_ok_iff.1 h
  have hamount := Decimal.isPos_iff.1 hamount
  have hprice := Decimal.isPos_iff.1 hprice
  have hlt := Decimal.exists_mul?_iff.1 hcost
  rw [abs_of_pos (mul_pos hprice hamount)] at hlt
  exact ⟨hprice, hamount.le, le_refl _, hlt⟩

theorem numbered (h : o.Regular) (sequence : UInt64) : { o with sequence }.Regular :=
  ⟨h.price_pos, h.remaining_nonneg, h.remaining_le, h.cost_lt⟩

theorem changes (h : o.Regular) (hc : o.Changes o') : o'.Regular := by
  have hterms := hc.sameTerms
  refine ⟨?_, hc.remaining_nonneg h.remaining_nonneg, ?_, ?_⟩
  · rw [hterms.price_eq]
    exact h.price_pos
  · rw [hterms.amount_eq]
    exact hc.remaining_le.trans h.remaining_le
  · rw [hterms.price_eq, hterms.amount_eq]
    exact h.cost_lt

/-- A part of the order costs no more than the whole. -/
theorem cost_part_lt (h : o.Regular) (hq : 0 ≤ q.toRat) (hle : q.toRat ≤ o.remaining.toRat)
    {p : ℚ} (hp : 0 ≤ p) (hple : p ≤ o.price.toRat) :
    |p * q.toRat| < Decimal.bound - 1 / 2 := by
  rw [abs_of_nonneg (mul_nonneg hp hq)]
  calc p * q.toRat ≤ o.price.toRat * o.amount.toRat :=
        mul_le_mul hple (hle.trans h.remaining_le) hq h.price_pos.le
    _ < Decimal.bound - 1 / 2 := h.cost_lt

end Order.Regular

/-- A fee of no more than the whole is in range. -/
theorem FeeSchedule.Shares.exists_fee {fees : FeeSchedule} (h : fees.Shares) (a : Decimal)
    (role : OrderRole) : ∃ fee, a.mul? (fees.rateFor role) = some fee := by
  refine Decimal.exists_mul?_iff.2 ?_
  have hrate : |(fees.rateFor role).toRat| ≤ 1 := by
    rw [abs_of_nonneg (h.nonneg role)]
    exact h.le_one role
  rw [abs_mul]
  exact (mul_le_of_le_one_right (abs_nonneg _) hrate).trans_lt (Decimal.abs_toRat_lt a)

namespace Tradable

variable {maker taker : Order} {quantity : Decimal} {fees : FeeSchedule}
  (h : Tradable maker taker quantity) (hm : maker.Regular)

include h hm

theorem exists_match (hfees : fees.Shares) (stamp : Stamp) :
    ∃ m, (Match.execute stamp maker taker quantity fees).run = .ok (.ok m) := by
  have hpos := (Decimal.isPos_iff.1 h.quantity_pos).le
  have hmaker_room := Decimal.not_lt_iff.1 h.maker_room
  have hquote : ∃ quote, maker.price.mul? quantity = some quote :=
    Decimal.exists_mul?_iff.2 (hm.cost_part_lt hpos hmaker_room hm.price_pos.le (le_refl _))
  obtain ⟨quote, hquote⟩ := hquote
  obtain ⟨buyerFee, hbuyerFee⟩ := hfees.exists_fee quantity (Trade.buyerAndSellerRole maker).1
  obtain ⟨sellerFee, hsellerFee⟩ := hfees.exists_fee quote (Trade.buyerAndSellerRole maker).2
  have htrade : ∃ t, Trade.create stamp maker taker quantity fees = .ok t :=
    ⟨_, Trade.create_eq_ok_iff.2 ⟨h.opposite, h.sameMarket, h.quantity_pos, quote, hquote,
      buyerFee, hbuyerFee, sellerFee, hsellerFee, rfl⟩⟩
  obtain ⟨t, htrade⟩ := htrade
  obtain ⟨maker', hmaker⟩ :=
    Order.exists_fill h.maker_resting h.quantity_pos h.maker_room .maker stamp.time
  obtain ⟨taker', htaker⟩ :=
    Order.exists_fill h.taker_resting h.quantity_pos h.taker_room .taker stamp.time
  exact ⟨⟨maker', taker', t⟩, Match.execute_eq_ok_iff.2 ⟨h, htrade, hmaker, htaker⟩⟩

/-- What the buyer gets back is in range. -/
theorem exists_settlementRecord (ht : taker.Regular) {t : Trade} (hprice : t.price = maker.price)
    (hquantity : t.quantity = quantity) (now : Instant) :
    ∃ r, SettlementRecord.create now t h.buy.price = .ok r := by
  have hpos := (Decimal.isPos_iff.1 h.quantity_pos).le
  obtain ⟨hbuy, -⟩ := h.forall_pair hm ht
  obtain ⟨hroom, -⟩ := h.forall_pair (P := fun o => quantity.toRat ≤ o.remaining.toRat)
    (Decimal.not_lt_iff.1 h.maker_room) (Decimal.not_lt_iff.1 h.taker_room)
  obtain ⟨c, hc, hnonneg, hle⟩ := Decimal.sub_between hm.price_pos.le h.price_between.2
  have hmax : (c.max Decimal.zero).toRat = c.toRat := by
    rw [Decimal.toRat_max, Decimal.toRat_zero, max_eq_left hnonneg]
  have hrelease : ∃ release, (c.max Decimal.zero).mul? quantity = some release := by
    refine Decimal.exists_mul?_iff.2 ?_
    rw [hmax]
    exact hbuy.cost_part_lt hpos hroom hnonneg hle
  obtain ⟨release, hrelease⟩ := hrelease
  exact ⟨_, SettlementRecord.create_eq_ok_iff.2
    ⟨c, hprice ▸ hc, release, hquantity ▸ hrelease, rfl⟩⟩

end Tradable

namespace Store

variable {s : Store} {stamp : Stamp} {makerId takerId : OrderId} {quantity : Decimal}
  {fees : FeeSchedule} {maker taker : Order}

/-- All stored orders are regular. -/
def Regular (s : Store) : Prop :=
  ∀ o ∈ s.orders.entries, o.Regular

theorem Matches.regular {m : Match} (hs : s.Regular)
    (hm : s.Matches stamp makerId takerId quantity fees maker taker m) :
    ∀ o ∈ ((s.orders.put m.maker).put m.taker).entries, o.Regular := by
  intro p hp
  obtain ⟨o, ho, rfl | ⟨role, hfill⟩⟩ := hm.exists_before hp
  · exact hs p ho
  · exact (hs o ho).changes (.filled hfill)

/-- A match has its settlement record. -/
theorem Matches.commitMatch_eq {m : Match} (hs : s.Regular)
    (hm : s.Matches stamp makerId takerId quantity fees maker taker m) :
    ∃ r, SettlementRecord.create stamp.time m.trade (buyLimit m.maker m.taker) = .ok r ∧
      s.commitMatch stamp makerId takerId quantity fees =
        (.ok (.executed m.trade), (s.record m).pushSettlement r) := by
  have hmaker := hs maker (OrderTable.mem_of_find? hm.maker_found)
  have htaker := hs taker (OrderTable.mem_of_find? hm.taker_found)
  obtain ⟨r, hr⟩ :=
    hm.tradable.exists_settlementRecord hmaker htaker hm.trade_price hm.trade_quantity stamp.time
  rw [← hm.buyLimit_eq] at hr
  refine ⟨r, hr, ?_⟩
  unfold commitMatch
  rw [if_neg hm.ne, hm.maker_found, hm.taker_found]
  dsimp only
  rw [hm.executed]
  dsimp only
  rw [hr]

/-- Two tradable orders are matched when they are asked to. -/
theorem commitMatch_executed (hs : s.Regular) (hfees : fees.Shares) (stamp : Stamp)
    (hne : makerId ≠ takerId) (hmaker : s.orders.find? makerId = some maker)
    (htaker : s.orders.find? takerId = some taker) (h : Tradable maker taker quantity) :
    ∃ m r, s.Matches stamp makerId takerId quantity fees maker taker m ∧
      SettlementRecord.create stamp.time m.trade (buyLimit m.maker m.taker) = .ok r ∧
      s.commitMatch stamp makerId takerId quantity fees =
        (.ok (.executed m.trade), (s.record m).pushSettlement r) := by
  obtain ⟨m, hexec⟩ := h.exists_match (hs maker (OrderTable.mem_of_find? hmaker)) hfees stamp
  have hm : s.Matches stamp makerId takerId quantity fees maker taker m :=
    ⟨hne, hmaker, htaker, hexec⟩
  obtain ⟨r, hr, hcommit⟩ := hm.commitMatch_eq hs
  exact ⟨m, r, hm, hr, hcommit⟩

/-- Orders are inserted as they are created. -/
def InsertsCreated : StoreCall → Prop
  | .insertOrder o => ∃ stamp terms, Order.create stamp terms = .ok o
  | _ => True

theorem Regular.perform (hs : s.Regular) (stamp : Stamp) {c : StoreCall} (hc : InsertsCreated c) :
    (s.perform stamp c).2.Regular := by
  intro p hp
  obtain ⟨o, ho, rfl | hchanges⟩ | ⟨o, rfl, -, rfl⟩ := exists_before_perform hp
  · exact hs p ho
  · exact (hs o ho).changes hchanges
  · obtain ⟨stamp', terms, hcreate⟩ := hc
    exact (Order.Regular.of_create hcreate).numbered _

theorem regular_afterCalls {calls : List (Stamp × StoreCall)}
    (hcalls : ∀ c ∈ calls, InsertsCreated c.2) : (Store.empty.afterCalls calls).Regular := by
  have hempty : Store.empty.Regular := fun o ho => (by cases ho)
  exact afterCalls_induction hempty fun s stamp c hc hs => hs.perform stamp (hcalls _ hc)

end Store

end Bourse
