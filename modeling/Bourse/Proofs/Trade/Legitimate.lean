import Bourse.Proofs.Store.Lifecycle

/-!
# Legitimate trades

What makes a trade a legitimate one, in terms of the two orders that it names. Only the terms of the
orders matter, which stay as they are. So a trade that is legitimate when it is made remains so.
-/

namespace Bourse

namespace Trade

/-- `maker` and `taker` are the maker and the taker of a trade: the maker came no later, and the
price is the maker's. -/
structure MadeBy (t : Trade) (maker taker : Order) : Prop where
  maker_id : t.makerOrderId = maker.id
  taker_id : t.takerOrderId = taker.id
  maker_user : t.makerUserId = maker.userId
  taker_user : t.takerUserId = taker.userId
  timeLe : Order.timeLe maker taker = true
  price_eq : t.price = maker.price

/-- A trade between a buy and a sell, as it has to be. -/
structure Legitimate (fees : FeeSchedule) (allowSelfTrade : Bool) (t : Trade) (buy sell : Order) :
    Prop where
  buy_id : t.buyOrderId = buy.id
  sell_id : t.sellOrderId = sell.id
  id_ne : buy.id ≠ sell.id
  buy_side : buy.side = .buy
  sell_side : sell.side = .sell
  buy_market : buy.market = ⟨t.symbol, t.tradingType⟩
  sell_market : sell.market = ⟨t.symbol, t.tradingType⟩
  buyer : t.buyerUserId = buy.userId
  seller : t.sellerUserId = sell.userId
  sell_le_price : sell.price ≤ t.price
  price_le_buy : t.price ≤ buy.price
  quantity_pos : t.quantity.isPos = true
  quote_eq : t.price.mul? t.quantity = some t.quoteQuantity
  /-- Each side pays at the rate of the part that it played. -/
  roles :
    t.MadeBy buy sell ∧ t.quantity.mul? fees.makerRate = some t.buyerFee ∧
      t.quoteQuantity.mul? fees.takerRate = some t.sellerFee ∨
    t.MadeBy sell buy ∧ t.quantity.mul? fees.takerRate = some t.buyerFee ∧
      t.quoteQuantity.mul? fees.makerRate = some t.sellerFee
  owners : allowSelfTrade = false → t.buyerUserId ≠ t.sellerUserId

variable {fees : FeeSchedule} {allowSelfTrade : Bool} {t : Trade}
  {maker taker maker' taker' buy sell buy' sell' : Order}

theorem timeLe_of_sameTerms (hmaker : maker.SameTerms maker') (htaker : taker.SameTerms taker')
    (h : Order.timeLe maker taker = true) : Order.timeLe maker' taker' = true := by
  rw [← h, Order.timeLe, Order.timeLe, Order.cmpTime, Order.cmpTime, hmaker.createdAt_eq,
    htaker.createdAt_eq, hmaker.sequence_eq, htaker.sequence_eq]

theorem MadeBy.of_sameTerms (h : t.MadeBy maker taker) (hmaker : maker.SameTerms maker')
    (htaker : taker.SameTerms taker') : t.MadeBy maker' taker' where
  maker_id := h.maker_id.trans hmaker.id_eq.symm
  taker_id := h.taker_id.trans htaker.id_eq.symm
  maker_user := h.maker_user.trans hmaker.userId_eq.symm
  taker_user := h.taker_user.trans htaker.userId_eq.symm
  timeLe := timeLe_of_sameTerms hmaker htaker h.timeLe
  price_eq := h.price_eq.trans hmaker.price_eq.symm

theorem Legitimate.of_sameTerms (h : t.Legitimate fees allowSelfTrade buy sell)
    (hbuy : buy.SameTerms buy') (hsell : sell.SameTerms sell') :
    t.Legitimate fees allowSelfTrade buy' sell' where
  buy_id := h.buy_id.trans hbuy.id_eq.symm
  sell_id := h.sell_id.trans hsell.id_eq.symm
  id_ne := by
    rw [hbuy.id_eq, hsell.id_eq]
    exact h.id_ne
  buy_side := hbuy.side_eq.trans h.buy_side
  sell_side := hsell.side_eq.trans h.sell_side
  buy_market := hbuy.market_eq.trans h.buy_market
  sell_market := hsell.market_eq.trans h.sell_market
  buyer := h.buyer.trans hbuy.userId_eq.symm
  seller := h.seller.trans hsell.userId_eq.symm
  sell_le_price := by
    rw [hsell.price_eq]
    exact h.sell_le_price
  price_le_buy := by
    rw [hbuy.price_eq]
    exact h.price_le_buy
  quantity_pos := h.quantity_pos
  quote_eq := h.quote_eq
  roles := h.roles.imp (fun ⟨hmade, hfees⟩ => ⟨hmade.of_sameTerms hbuy hsell, hfees⟩)
    fun ⟨hmade, hfees⟩ => ⟨hmade.of_sameTerms hsell hbuy, hfees⟩
  owners := h.owners

end Trade

/-- A trade of two tradable orders is legitimate, if the maker came no later and the owners may
trade with each other. -/
theorem Tradable.legitimate {fees : FeeSchedule} {allowSelfTrade : Bool} {stamp : Stamp} {t : Trade}
    {maker taker : Order} {quantity : Decimal} (h : Tradable maker taker quantity)
    (hcreate : Trade.create stamp maker taker quantity fees = .ok t) (hid : maker.id ≠ taker.id)
    (htime : Order.timeLe maker taker = true)
    (howners : allowSelfTrade = true ∨ maker.userId ≠ taker.userId) :
    t.Legitimate fees allowSelfTrade h.buy h.sell := by
  obtain ⟨-, hmarket, -, quote, hquote, bfee, hbfee, sfee, hsfee, rfl⟩ :=
    Trade.create_eq_ok_iff.1 hcreate
  obtain ⟨hbuy_market, hsell_market⟩ := h.forall_pair (P := fun o => o.market = maker.market)
    rfl hmarket.symm
  have hself : allowSelfTrade = false → maker.userId ≠ taker.userId := by
    rintro rfl
    exact howners.resolve_left fun e => (by cases e)
  have hcases : h.buy.id ≠ h.sell.id ∧ (allowSelfTrade = false → h.buy.userId ≠ h.sell.userId) := by
    obtain ⟨-, -, hpair⟩ | ⟨-, -, hpair⟩ := h.pair_cases <;> rw [buy, sell, hpair]
    · exact ⟨hid, hself⟩
    · exact ⟨hid.symm, fun hfalse => (hself hfalse).symm⟩
  refine ⟨rfl, rfl, hcases.1, h.buy_side, h.sell_side, hbuy_market, hsell_market, rfl, rfl,
    Decimal.le_iff.2 h.price_between.1, Decimal.le_iff.2 h.price_between.2, h.quantity_pos, hquote,
    ?_, hcases.2⟩
  obtain ⟨hside, -, hpair⟩ | ⟨hside, -, hpair⟩ := h.pair_cases <;>
    rw [Trade.buyerAndSellerRole, hside] at hbfee hsfee <;> rw [buy, sell, hpair]
  · exact Or.inl ⟨⟨rfl, rfl, rfl, rfl, htime, rfl⟩, hbfee, hsfee⟩
  · exact Or.inr ⟨⟨rfl, rfl, rfl, rfl, htime, rfl⟩, hbfee, hsfee⟩

namespace Store

variable {fees : FeeSchedule} {allowSelfTrade : Bool} {s s' s'' : Store} {o o' : Order}

/-- The orders with these names may be matched, the first one as the maker. -/
def MayPair (allowSelfTrade : Bool) (s : Store) (makerId takerId : OrderId) : Prop :=
  ∃ maker ∈ s.orders.entries, ∃ taker ∈ s.orders.entries,
    maker.id = makerId ∧ taker.id = takerId ∧ Order.timeLe maker taker = true ∧
      (allowSelfTrade = true ∨ maker.userId ≠ taker.userId)

/-- The trade of a pair that may be matched is legitimate. -/
theorem Matches.legitimate {stamp : Stamp} {makerId takerId : OrderId} {quantity : Decimal}
    {maker taker : Order} {m : Match}
    (hm : s.Matches stamp makerId takerId quantity fees maker taker m)
    (hpair : s.MayPair allowSelfTrade makerId takerId) :
    ∃ buy ∈ ((s.orders.put m.maker).put m.taker).entries,
      ∃ sell ∈ ((s.orders.put m.maker).put m.taker).entries,
        m.trade.Legitimate fees allowSelfTrade buy sell := by
  -- The pair that may be matched is the one that is.
  obtain ⟨p, hp, q, hq, hpid, hqid, htime, howners⟩ := hpair
  have hpfound := hm.maker_found
  have hqfound := hm.taker_found
  rw [← hpid, OrderTable.find?_of_mem hp] at hpfound
  rw [← hqid, OrderTable.find?_of_mem hq] at hqfound
  obtain rfl := Option.some.inj hpfound
  obtain rfl := Option.some.inj hqfound
  have hid : p.id ≠ q.id := by
    rw [hpid, hqid]
    exact hm.ne
  have hlegitimate := hm.tradable.legitimate hm.trade_created hid htime howners
  obtain ⟨⟨buy, hbuy, hb⟩, ⟨sell, hsell, hs⟩⟩ := hm.tradable.forall_pair
    (P := fun o => ∃ o' ∈ ((s.orders.put m.maker).put m.taker).entries, o.SameTerms o')
    ⟨m.maker, hm.mem_orders_iff.2 (Or.inl rfl), Order.sameTerms_of_fill hm.maker_filled⟩
    ⟨m.taker, hm.mem_orders_iff.2 (Or.inr (Or.inl rfl)), Order.sameTerms_of_fill hm.taker_filled⟩
  exact ⟨buy, hbuy, sell, hsell, hlegitimate.of_sameTerms hb hs⟩

/-- A store and a later one: every order is still there, on the same terms, and trades were only
added. -/
structure Grows (s s' : Store) : Prop where
  orders : ∀ o ∈ s.orders.entries, ∃ p ∈ s'.orders.entries, o.SameTerms p
  trades : s.trades <+: s'.trades

namespace Grows

theorem refl (s : Store) : s.Grows s := ⟨fun o ho => ⟨o, ho, .refl o⟩, List.prefix_refl _⟩

theorem trans (h : s.Grows s') (h' : s'.Grows s'') : s.Grows s'' where
  orders o ho := by
    obtain ⟨p, hp, hop⟩ := h.orders o ho
    obtain ⟨q, hq, hpq⟩ := h'.orders p hp
    exact ⟨q, hq, hop.trans hpq⟩
  trades := h.trades.trans h'.trades

theorem mayPair (h : s.Grows s') {makerId takerId : OrderId}
    (hpair : s.MayPair allowSelfTrade makerId takerId) :
    s'.MayPair allowSelfTrade makerId takerId := by
  obtain ⟨maker, hmaker, taker, htaker, rfl, rfl, htime, howners⟩ := hpair
  obtain ⟨maker', hmaker', hm⟩ := h.orders maker hmaker
  obtain ⟨taker', htaker', ht⟩ := h.orders taker htaker
  refine ⟨maker', hmaker', taker', htaker', hm.id_eq, ht.id_eq,
    Trade.timeLe_of_sameTerms hm ht htime, ?_⟩
  rw [hm.userId_eq, ht.userId_eq]
  exact howners

end Grows

theorem grows_perform (s : Store) (stamp : Stamp) (c : StoreCall) :
    s.Grows (s.perform stamp c).2 where
  orders o ho := by
    obtain ⟨p, hp, rfl | hchanges⟩ := exists_after_perform stamp c ho
    · exact ⟨p, hp, .refl p⟩
    · exact ⟨p, hp, hchanges.sameTerms⟩
  trades := by
    cases ordersStep s stamp c with
    | matched _ _ htrades => exact ⟨_, htrades.symm⟩
    | _ => rename_i htrades; rw [htrades]

/-- Every trade is legitimate. -/
def Legitimate (fees : FeeSchedule) (allowSelfTrade : Bool) (s : Store) : Prop :=
  ∀ t ∈ s.trades, ∃ buy ∈ s.orders.entries, ∃ sell ∈ s.orders.entries,
    t.Legitimate fees allowSelfTrade buy sell

/-- A call leaves only legitimate trades, if it matches no pair that may not be matched. -/
theorem Legitimate.perform (h : s.Legitimate fees allowSelfTrade) (stamp : Stamp) {c : StoreCall}
    (hc : ∀ makerId takerId quantity fees', c = .commitMatch makerId takerId quantity fees' →
      fees' = fees ∧ s.MayPair allowSelfTrade makerId takerId) :
    (s.perform stamp c).2.Legitimate fees allowSelfTrade := by
  have hgrows := grows_perform s stamp c
  have hold : ∀ t ∈ s.trades, ∃ buy ∈ (s.perform stamp c).2.orders.entries,
      ∃ sell ∈ (s.perform stamp c).2.orders.entries,
        t.Legitimate fees allowSelfTrade buy sell := by
    intro t ht
    obtain ⟨buy, hbuy, sell, hsell, hlegitimate⟩ := h t ht
    obtain ⟨buy', hbuy', hb⟩ := hgrows.orders buy hbuy
    obtain ⟨sell', hsell', hs⟩ := hgrows.orders sell hsell
    exact ⟨buy', hbuy', sell', hsell', hlegitimate.of_sameTerms hb hs⟩
  intro t ht
  cases ordersStep s stamp c with
  | matched hm horders htrades =>
    obtain ⟨rfl, hpair⟩ := hc _ _ _ _ rfl
    rw [htrades] at ht
    rcases List.mem_append.1 ht with ht | ht
    · exact hold t ht
    · rw [List.mem_singleton.1 ht, horders]
      exact hm.legitimate hpair
  | _ =>
    rename_i htrades
    exact hold t (htrades ▸ ht)

end Store

end Bourse
