import Bourse.Book
import Bourse.Proofs.Decimal.Sums
import Bourse.Proofs.Outcome
import Bourse.Settlement

/-!
# What a step does to an order

Each step in the life of an order, with all the conditions under which it happens and all that it
changes. No step changes the terms of an order, and none gives back what was traded.
-/

namespace Bourse

theorem product_eq_ok_iff {a b c : Decimal} {what : String} :
    product a b what = .ok c ↔ a.mul? b = some c := by
  unfold product
  cases a.mul? b <;> simp

namespace Order

variable {o o' : Order} {now : Instant}

theorem create_eq_ok_iff {stamp : Stamp} {terms : OrderTerms} :
    create stamp terms = .ok o ↔
      terms.amount.isPos = true ∧ terms.price.isPos = true ∧
      (∃ notional, terms.price.mul? terms.amount = some notional) ∧
      o =
        { id := ⟨stamp.id⟩
          symbol := terms.symbol
          side := terms.side
          tradingType := terms.tradingType
          amount := terms.amount
          remaining := terms.amount
          price := terms.price
          userId := terms.userId
          status := .pending
          role := .maker
          createdAt := stamp.time
          updatedAt := none
          notes := terms.notes.filter fun n => !Text.isBlankText n
          sequence := 0 } := by
  unfold create
  simp only [bind_eq_ok_iff, ite_throw_eq_ok_iff, throw_bind, pure_eq_ok_iff, product_eq_ok_iff,
    exists_and_right]

/-- A new order for gold, paid in dollars. -/
def gold (number : Nat) (side : Side) (amount price : Decimal) (user : UInt64) : Order where
  id := ⟨Uuid.ofNat number⟩
  symbol := ⟨"XAU", "USD", by decide, by decide⟩
  side := side
  tradingType := .spot
  amount := amount
  remaining := amount
  price := price
  userId := ⟨user⟩
  status := .pending
  role := .maker
  createdAt := Instant.epoch
  updatedAt := none
  notes := none
  sequence := 0

/-- Gold against dollars. -/
def goldSymbol : Symbol := (gold 1 .buy .one .one 1).symbol

/-- Nothing has been done to an order since it was created, without notes. -/
def Untouched (o : Order) : Prop :=
  o = { o with
    remaining := o.amount
    status := .pending
    role := .maker
    updatedAt := none
    notes := none
    sequence := 0 }

theorem exists_create (hfresh : o.Untouched) (hamount : o.amount.isPos = true)
    (hprice : o.price.isPos = true) (hnotional : ∃ notional, o.price.mul? o.amount = some notional) :
    ∃ stamp terms, create stamp terms = .ok o :=
  ⟨⟨o.id.uuid, o.createdAt⟩,
    ⟨o.symbol, o.amount, o.price, o.userId, o.side, o.tradingType, none⟩,
    create_eq_ok_iff.2 ⟨hamount, hprice, hnotional, hfresh⟩⟩

theorem create_gold (number : Nat) (side : Side) {amount price : Decimal} (user : UInt64)
    (hamount : amount.isPos = true) (hprice : price.isPos = true)
    (hnotional : ∃ notional, price.mul? amount = some notional) :
    ∃ stamp terms, create stamp terms = .ok (gold number side amount price user) :=
  exists_create rfl hamount hprice hnotional

theorem confirm_eq_ok_iff : o.confirm now = .ok o' ↔
    o.status = .pending ∧ o' = { o with status := .confirmed, updatedAt := some now } := by
  unfold confirm
  split <;> rename_i h <;> simp [h, eq_comm]

theorem cancel_eq_ok_iff {reason : String} : o.cancel reason now = .ok o' ↔
    o.status.isCancellable = true ∧ o' =
      { o with
        status := .cancelled
        notes := if Text.isBlankText reason then o.notes else some (Text.trimmed reason)
        updatedAt := some now } := by
  unfold cancel
  split
  · rename_i h
    rw [Except.ok.injEq]
    exact ⟨fun e => ⟨h, e.symm⟩, fun e => e.2.symm⟩
  · rename_i h
    exact ⟨fun e => (by cases e), fun e => absurd e.1 h⟩

theorem fail_eq_ok_iff {reason : String} : o.fail reason now = .ok o' ↔
    Text.isBlankText reason = false ∧ o.status.isTerminal = false ∧ o' =
      { o with
        status := .failed
        notes := some (Text.trimmed reason)
        updatedAt := some now } := by
  unfold fail
  split
  · rename_i h
    simp [h]
  · rename_i h
    split <;> rename_i h' <;> simp [h, h', eq_comm]

theorem fill_eq_ok_iff {quantity : Decimal} {role : OrderRole} :
    (o.fill quantity role now).run = .ok (.ok o') ↔
      o.status.isResting = true ∧ quantity.isPos = true ∧ ¬o.remaining < quantity ∧
      ∃ remaining, o.remaining.sub quantity = .ok remaining ∧ o' =
        { o with
          remaining := remaining
          role := o.roleAfter role
          status := if remaining.isZero then .completed else .partially
          updatedAt := some now } := by
  unfold fill
  simp only [run_bind_eq_ok_iff, run_ite_throw_eq_ok_iff, run_throw_ite_eq_ok_iff,
    run_pure_eq_ok_iff, run_lift_checked_eq_ok_iff, ExceptT.bind_throw]

/-- No fill overflows. -/
theorem exists_fill {quantity : Decimal} (hrest : o.status.isResting = true)
    (hpos : quantity.isPos = true) (hroom : ¬o.remaining < quantity) (role : OrderRole)
    (now : Instant) : ∃ o', (o.fill quantity role now).run = .ok (.ok o') := by
  obtain ⟨r, hr, -, -⟩ :=
    Decimal.sub_between (Decimal.isPos_iff.1 hpos).le (Decimal.not_lt_iff.1 hroom)
  exact ⟨_, fill_eq_ok_iff.2 ⟨hrest, hpos, hroom, r, hr, rfl⟩⟩

/-- Two states of one order: all that is fixed once it is stored is the same. -/
structure SameTerms (o o' : Order) : Prop where
  id_eq : o'.id = o.id
  symbol_eq : o'.symbol = o.symbol
  side_eq : o'.side = o.side
  tradingType_eq : o'.tradingType = o.tradingType
  amount_eq : o'.amount = o.amount
  price_eq : o'.price = o.price
  userId_eq : o'.userId = o.userId
  createdAt_eq : o'.createdAt = o.createdAt
  sequence_eq : o'.sequence = o.sequence

namespace SameTerms

theorem refl (o : Order) : o.SameTerms o := ⟨rfl, rfl, rfl, rfl, rfl, rfl, rfl, rfl, rfl⟩

theorem trans {o'' : Order} (h : o.SameTerms o') (h' : o'.SameTerms o'') : o.SameTerms o'' where
  id_eq := h'.id_eq.trans h.id_eq
  symbol_eq := h'.symbol_eq.trans h.symbol_eq
  side_eq := h'.side_eq.trans h.side_eq
  tradingType_eq := h'.tradingType_eq.trans h.tradingType_eq
  amount_eq := h'.amount_eq.trans h.amount_eq
  price_eq := h'.price_eq.trans h.price_eq
  userId_eq := h'.userId_eq.trans h.userId_eq
  createdAt_eq := h'.createdAt_eq.trans h.createdAt_eq
  sequence_eq := h'.sequence_eq.trans h.sequence_eq

theorem symm (h : o.SameTerms o') : o'.SameTerms o where
  id_eq := h.id_eq.symm
  symbol_eq := h.symbol_eq.symm
  side_eq := h.side_eq.symm
  tradingType_eq := h.tradingType_eq.symm
  amount_eq := h.amount_eq.symm
  price_eq := h.price_eq.symm
  userId_eq := h.userId_eq.symm
  createdAt_eq := h.createdAt_eq.symm
  sequence_eq := h.sequence_eq.symm

theorem market_eq (h : o.SameTerms o') : o'.market = o.market := by
  rw [market, market, h.symbol_eq, h.tradingType_eq]

end SameTerms

theorem sameTerms_of_fill {quantity : Decimal} {role : OrderRole}
    (h : (o.fill quantity role now).run = .ok (.ok o')) : o.SameTerms o' := by
  obtain ⟨-, -, -, r, -, rfl⟩ := fill_eq_ok_iff.1 h
  exact ⟨rfl, rfl, rfl, rfl, rfl, rfl, rfl, rfl, rfl⟩

/-- However a fill is rounded, it leaves between nothing and what there was. -/
theorem remaining_of_fill {quantity : Decimal} {role : OrderRole}
    (h : (o.fill quantity role now).run = .ok (.ok o')) :
    0 ≤ o'.remaining.toRat ∧ o'.remaining.toRat ≤ o.remaining.toRat := by
  obtain ⟨-, hpos, hroom, r, hr, rfl⟩ := fill_eq_ok_iff.1 h
  have hquantity := (Decimal.isPos_iff.1 hpos).le
  obtain ⟨c, hc, hbetween⟩ := Decimal.sub_between hquantity (Decimal.not_lt_iff.1 hroom)
  obtain rfl : c = r := Except.ok.inj (hc.symm.trans hr)
  exact hbetween

end Order

/-- What a transition does: the new status, and perhaps new notes. -/
theorem Transition.apply_eq_ok {t : Transition} {o o' : Order} {now : Instant}
    (h : t.apply o now = .ok o') :
    ∃ status notes, o' = { o with status, notes, updatedAt := some now } ∧
      ((t = .confirm ∧ o.status = .pending ∧ status = .confirmed) ∨
        ((∃ reason, t = .cancel reason) ∧ o.status.isCancellable = true ∧ status = .cancelled) ∨
        ((∃ reason, t = .fail reason) ∧ o.status.isTerminal = false ∧ status = .failed)) := by
  cases t with
  | confirm =>
    obtain ⟨hs, rfl⟩ := Order.confirm_eq_ok_iff.1 h
    exact ⟨_, _, rfl, Or.inl ⟨rfl, hs, rfl⟩⟩
  | cancel reason =>
    obtain ⟨hs, rfl⟩ := Order.cancel_eq_ok_iff.1 h
    exact ⟨_, _, rfl, Or.inr (Or.inl ⟨⟨reason, rfl⟩, hs, rfl⟩)⟩
  | fail reason =>
    obtain ⟨-, hs, rfl⟩ := Order.fail_eq_ok_iff.1 h
    exact ⟨_, _, rfl, Or.inr (Or.inr ⟨⟨reason, rfl⟩, hs, rfl⟩)⟩

/-- A step in the life of a stored order. -/
inductive Order.Changes (o o' : Order) : Prop where
  | applied {t : Transition} {now : Instant} (h : t.apply o now = .ok o')
  | filled {quantity : Decimal} {role : OrderRole} {now : Instant}
    (h : (o.fill quantity role now).run = .ok (.ok o'))

namespace Order.Changes

variable {o o' : Order} (h : o.Changes o')

include h

theorem sameTerms : o.SameTerms o' := by
  cases h with
  | applied h =>
    obtain ⟨status, notes, rfl, -⟩ := Transition.apply_eq_ok h
    exact ⟨rfl, rfl, rfl, rfl, rfl, rfl, rfl, rfl, rfl⟩
  | filled h => exact sameTerms_of_fill h

theorem remaining_le : o'.remaining.toRat ≤ o.remaining.toRat := by
  cases h with
  | applied h =>
    obtain ⟨status, notes, rfl, -⟩ := Transition.apply_eq_ok h
    exact le_refl _
  | filled h => exact (remaining_of_fill h).2

theorem remaining_nonneg (ho : 0 ≤ o.remaining.toRat) : 0 ≤ o'.remaining.toRat := by
  cases h with
  | applied h =>
    obtain ⟨status, notes, rfl, -⟩ := Transition.apply_eq_ok h
    exact ho
  | filled h => exact (remaining_of_fill h).1

end Order.Changes

/-! ### Matches -/

/-- Two orders that can trade `quantity` with each other. -/
structure Tradable (maker taker : Order) (quantity : Decimal) : Prop where
  quantity_pos : quantity.isPos = true
  maker_resting : maker.status.isResting = true
  taker_resting : taker.status.isResting = true
  maker_room : ¬maker.remaining < quantity
  taker_room : ¬taker.remaining < quantity
  opposite : maker.side ≠ taker.side
  sameMarket : maker.market = taker.market
  crossing : ¬(Trade.buyAndSell maker taker).1.price < (Trade.buyAndSell maker taker).2.price

namespace Tradable

variable {maker taker : Order} {quantity : Decimal} (h : Tradable maker taker quantity)

/-- The buy of a pair. -/
abbrev buy (_ : Tradable maker taker quantity) : Order := (Trade.buyAndSell maker taker).1

/-- The sell of a pair. -/
abbrev sell (_ : Tradable maker taker quantity) : Order := (Trade.buyAndSell maker taker).2

include h

theorem taker_symbol : taker.symbol = maker.symbol :=
  (congrArg Market.symbol h.sameMarket).symm

/-- The buy and the sell are the maker and the taker, or the taker and the maker. -/
theorem pair_cases :
    (maker.side = .buy ∧ taker.side = .sell ∧ Trade.buyAndSell maker taker = (maker, taker)) ∨
    (maker.side = .sell ∧ taker.side = .buy ∧ Trade.buyAndSell maker taker = (taker, maker)) := by
  have hne := h.opposite
  unfold Trade.buyAndSell
  cases hm : maker.side with
  | buy =>
    left
    refine ⟨rfl, ?_, rfl⟩
    cases ht : taker.side with
    | sell => rfl
    | buy => exact absurd (hm.trans ht.symm) hne
  | sell =>
    right
    refine ⟨rfl, ?_, rfl⟩
    cases ht : taker.side with
    | buy => rfl
    | sell => exact absurd (hm.trans ht.symm) hne

/-- The price of a trade lies between the limits of its two orders. -/
theorem price_between : h.sell.price.toRat ≤ maker.price.toRat ∧
    maker.price.toRat ≤ h.buy.price.toRat := by
  have hcross := Decimal.not_lt_iff.1 h.crossing
  obtain ⟨-, -, hpair⟩ | ⟨-, -, hpair⟩ := h.pair_cases <;> rw [buy, sell] <;> rw [hpair] at hcross ⊢
  · exact ⟨hcross, le_refl _⟩
  · exact ⟨le_refl _, hcross⟩

theorem buy_side : h.buy.side = .buy := by
  obtain ⟨hm, -, hpair⟩ | ⟨-, ht, hpair⟩ := h.pair_cases <;> rw [buy, hpair]
  · exact hm
  · exact ht

theorem sell_side : h.sell.side = .sell := by
  obtain ⟨-, ht, hpair⟩ | ⟨hm, -, hpair⟩ := h.pair_cases <;> rw [sell, hpair]
  · exact ht
  · exact hm

/-- What both orders of a pair satisfy, the buy and the sell do. -/
theorem forall_pair {P : Order → Prop} (hm : P maker) (ht : P taker) : P h.buy ∧ P h.sell := by
  obtain ⟨-, -, hpair⟩ | ⟨-, -, hpair⟩ := h.pair_cases <;> rw [buy, sell, hpair]
  · exact ⟨hm, ht⟩
  · exact ⟨ht, hm⟩

end Tradable

section Match

variable {stamp : Stamp} {maker taker : Order} {quantity : Decimal} {fees : FeeSchedule}

theorem checkAvailable_eq_ok_iff {o : Order} {u : Unit} : checkAvailable quantity o = .ok u ↔
    o.status.isResting = true ∧ ¬o.remaining < quantity := by
  unfold checkAvailable
  simp only [ite_throw_eq_ok_iff, throw_ite_eq_ok_iff, throw_bind, pure_eq_ok_iff, and_true]

theorem orConflict_eq_ok_iff {α : Type} {x : Except OrderError α} {a : α} :
    orConflict x = .ok a ↔ x = .ok a := by
  cases x <;> simp [orConflict]

theorem fillOrConflict_eq_ok_iff {o o' : Order} {role : OrderRole} {now : Instant} :
    (fillOrConflict o quantity role now).run = .ok (.ok o') ↔
      (o.fill quantity role now).run = .ok (.ok o') := by
  unfold fillOrConflict
  rw [ExceptT.run_mk]
  rcases (o.fill quantity role now).run with e | e | o
  · simp [Functor.map, Except.map]
  · simp [Functor.map, Except.map, orConflict]
  · simp [Functor.map, Except.map, orConflict]

theorem buyAndSell_side_ne_iff :
    (Trade.buyAndSell maker taker).1.side = (Trade.buyAndSell maker taker).2.side ↔
      maker.side = taker.side := by
  unfold Trade.buyAndSell
  cases h : maker.side <;> simp [h, eq_comm]

theorem Trade.create_eq_ok_iff {t : Trade} : Trade.create stamp maker taker quantity fees = .ok t ↔
    maker.side ≠ taker.side ∧ maker.market = taker.market ∧ quantity.isPos = true ∧
    ∃ quoteQuantity, maker.price.mul? quantity = some quoteQuantity ∧
    ∃ buyerFee, quantity.mul? (fees.rateFor (buyerAndSellerRole maker).1) = some buyerFee ∧
    ∃ sellerFee, quoteQuantity.mul? (fees.rateFor (buyerAndSellerRole maker).2) = some sellerFee ∧
    t =
      { id := ⟨stamp.id⟩
        symbol := maker.symbol
        tradingType := maker.tradingType
        buyOrderId := (buyAndSell maker taker).1.id
        sellOrderId := (buyAndSell maker taker).2.id
        makerOrderId := maker.id
        takerOrderId := taker.id
        price := maker.price
        quantity := quantity
        quoteQuantity := quoteQuantity
        buyerUserId := (buyAndSell maker taker).1.userId
        sellerUserId := (buyAndSell maker taker).2.userId
        makerUserId := maker.userId
        takerUserId := taker.userId
        makerFeeRate := fees.makerRate
        takerFeeRate := fees.takerRate
        buyerFee := buyerFee
        sellerFee := sellerFee
        createdAt := stamp.time } := by
  unfold Trade.create
  simp only [bind_eq_ok_iff, ite_throw_eq_ok_iff, throw_ite_eq_ok_iff, throw_bind, pure_eq_ok_iff,
    product_eq_ok_iff, ne_eq, Decidable.not_not]

theorem SettlementRecord.create_eq_ok_iff {now : Instant} {t : Trade} {limit : Decimal}
    {r : SettlementRecord} : SettlementRecord.create now t limit = .ok r ↔
      ∃ improvement, limit.sub t.price = .ok improvement ∧
      ∃ release, (improvement.max Decimal.zero).mul? t.quantity = some release ∧
      r =
        { trade := t
          buyerRelease := release
          status := .pending
          attempts := 0
          lastError := none
          createdAt := now
          updatedAt := none } := by
  unfold SettlementRecord.create
  simp only [bind_eq_ok_iff, pure_eq_ok_iff, Decimal.mul_eq_ok_iff]

/-- A match takes place just if the orders are tradable and nothing overflows. -/
theorem Match.execute_eq_ok_iff {m : Match} :
    (Match.execute stamp maker taker quantity fees).run = .ok (.ok m) ↔
      Tradable maker taker quantity ∧
      Trade.create stamp maker taker quantity fees = .ok m.trade ∧
      (maker.fill quantity .maker stamp.time).run = .ok (.ok m.maker) ∧
      (taker.fill quantity .taker stamp.time).run = .ok (.ok m.taker) := by
  unfold Match.execute
  simp only [run_bind_eq_ok_iff, run_ite_throw_eq_ok_iff, run_throw_ite_eq_ok_iff,
    run_pure_eq_ok_iff, run_lift_except_eq_ok_iff, ExceptT.bind_throw, checkAvailable_eq_ok_iff,
    orConflict_eq_ok_iff, fillOrConflict_eq_ok_iff, buyAndSell_side_ne_iff]
  constructor
  · rintro ⟨hq, -, ⟨hm1, hm2⟩, -, ⟨ht1, ht2⟩, hside, hcross, t, ht, mk, hmk, tk, htk, rfl⟩
    have hmarket := (Trade.create_eq_ok_iff.1 ht).2.1
    exact ⟨⟨hq, hm1, ht1, hm2, ht2, hside, hmarket, hcross⟩, ht, hmk, htk⟩
  · rintro ⟨h, ht, hmk, htk⟩
    exact ⟨h.quantity_pos, (), ⟨h.maker_resting, h.maker_room⟩, (), ⟨h.taker_resting, h.taker_room⟩,
      h.opposite, h.crossing, _, ht, _, hmk, _, htk, rfl⟩

end Match

end Bourse
