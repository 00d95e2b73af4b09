import Bourse.Proofs.Matching.Timeless
import Bourse.Proofs.Settlement.Calls
import Bourse.Proofs.Store.Commit
import Bourse.Proofs.Trade.Floor

/-!
# What a run of a market sees

A run of a market reads the orders of this market and matches two of them at a time. So what it does
is a function of a view of the store: the orders of the market, without clock readings. Its calls
leave the orders and the trades of all other markets as they are, and the calls of runs of other
markets leave its view as it is.
-/

namespace Bourse

/-- A stamp that says nothing. -/
def Stamp.blank : Stamp := ⟨.ofNat 0, .epoch⟩

def Trade.market (t : Trade) : Market := ⟨t.symbol, t.tradingType⟩

/-- The orders and the trades of a market, without what clocks and names say. -/
@[ext]
structure MarketView where
  orders : List Order
  trades : List Trade

namespace Store

def ordersIn (s : Store) (market : Market) : List Order :=
  s.orders.entries.filter fun o => o.market = market

def tradesIn (s : Store) (market : Market) : List Trade :=
  s.trades.filter fun t => t.market = market

/-- What a store holds of a market, without what clocks and names say. -/
def view (s : Store) (market : Market) : MarketView where
  orders := (s.ordersIn market).map Order.timeless
  trades := (s.tradesIn market).map Trade.unnamed

end Store

/-! ### A run as a function of the view -/

namespace MarketView

/-- One side of a market as it is matched. -/
def sideOf (v : MarketView) (side : Side) : List Order :=
  sortByPriority side (v.orders.filter fun o => o.isResting && o.side = side)

/-- The pair that trades next. -/
def bestCandidate (allowSelfTrade : Bool) (v : MarketView) : Option MatchCandidate :=
  bestMatch allowSelfTrade (v.sideOf .buy) (v.sideOf .sell)

/-- The trade of a pair and the view after it, or nothing if the pair is refused. -/
def commitMatch (fees : FeeSchedule) (v : MarketView) (c : MatchCandidate) :
    Option (Trade × MarketView) :=
  match v.orders.find? (·.id = c.makerOrderId), v.orders.find? (·.id = c.takerOrderId) with
  | some maker, some taker =>
    match (Match.execute .blank maker taker c.quantity fees).run with
    | .ok (.ok m) => some (m.trade,
        { orders := OrderTable.putEntry m.taker.timeless
            (OrderTable.putEntry m.maker.timeless v.orders)
          trades := v.trades ++ [m.trade] })
    | _ => none
  | _, _ => none

/-- The trades of a run of at most so many matches, why it ends, and the view in the end. -/
def run (e : Engine) : ℕ → MarketView → (List Trade × StopReason) × MarketView
  | 0, v => (([], .iterationCap), v)
  | n + 1, v =>
    match v.bestCandidate e.allowSelfTrade with
    | none => (([], .exhausted), v)
    | some c =>
      match v.commitMatch e.fees c with
      | none => (([], .conflict), v)
      | some (t, v) =>
        let ((trades, stop), v) := run e n v
        ((t :: trades, stop), v)

end MarketView

variable {allowSelfTrade : Bool} {s s' : Store} {market market' : Market} {o p : Order}
  {fees : FeeSchedule} {stamp : Stamp} {c : MatchCandidate} {e : Engine} {v v' : MarketView}

/-! ### Reading the book -/

theorem Store.map_sideOf_eq (s : Store) (market : Market) (side : Side) :
    (s.sideOf market side).map Order.timeless = (s.view market).sideOf side := by
  rw [map_sideOf, MarketView.sideOf, view, ordersIn]
  refine congrArg (sortByPriority side) ?_
  rw [List.filter_filter, List.filter_map, List.filter_map, List.filter_filter]
  refine congrArg (List.map Order.timeless) (List.filter_congr fun o _ => ?_)
  have hrest : o.timeless.isResting = o.isResting := rfl
  have hside : o.timeless.side = o.side := rfl
  have hmarket : o.timeless.market = o.market := rfl
  simp only [Function.comp_apply, hrest, hside, hmarket]
  cases o.isResting <;> simp

theorem firstSellFor_timeless (buy : Order) (sells : List Order) :
    firstSellFor allowSelfTrade buy.timeless (sells.map Order.timeless) =
      (firstSellFor allowSelfTrade buy sells).map Order.timeless := by
  rw [firstSellFor, firstSellFor, List.filter_map, List.takeWhile_map, List.find?_map]
  rfl

/-- Clock readings play no part in the choice of a pair. -/
theorem bestMatch_timeless (buys sells : List Order) :
    bestMatch allowSelfTrade (buys.map Order.timeless) (sells.map Order.timeless) =
      bestMatch allowSelfTrade buys sells := by
  have hpair : (fun buy : Order =>
      (firstSellFor allowSelfTrade buy (sells.map Order.timeless)).map
        (MatchCandidate.between buy)) ∘ Order.timeless =
      fun buy => (firstSellFor allowSelfTrade buy sells).map (MatchCandidate.between buy) := by
    funext buy
    rw [Function.comp_apply, firstSellFor_timeless, Option.map_map]
    exact congrArg (Option.map · _) (funext fun sell => MatchCandidate.between_timeless buy sell)
  rw [bestMatch, bestMatch, List.filter_map, List.findSome?_map, hpair]
  rfl

theorem MarketView.mem_sideOf {side : Side} (h : o ∈ v.sideOf side) : o ∈ v.orders := by
  rw [sideOf, sortByPriority, List.mem_mergeSort] at h
  exact (List.mem_filter.1 h).1

/-- A pair has its orders from the view. -/
theorem MarketView.mem_of_bestCandidate (h : v.bestCandidate allowSelfTrade = some c) :
    (∃ o ∈ v.orders, o.id = c.makerOrderId) ∧ ∃ o ∈ v.orders, o.id = c.takerOrderId := by
  obtain ⟨buy, hbuy, sell, hsell, -, rfl⟩ := bestMatch_eq_some h
  have hbuy := mem_sideOf hbuy
  have hsell := mem_sideOf hsell
  unfold MatchCandidate.between MatchCandidate.makerAndTaker
  by_cases htime : Order.timeLe buy sell = true
  · rw [if_pos htime]
    exact ⟨⟨buy, hbuy, rfl⟩, sell, hsell, rfl⟩
  · rw [if_neg htime]
    exact ⟨⟨sell, hsell, rfl⟩, buy, hbuy, rfl⟩

/-! ### Putting an order -/

section Put

variable {l : List Order}

/-- Where an order belongs to a market, it is put among the orders of this market. -/
theorem filter_putEntry_of_eq (ho : o.market = market)
    (hl : ∀ p ∈ l, p.id = o.id → p.market = market) :
    (OrderTable.putEntry o l).filter (fun p => p.market = market) =
      OrderTable.putEntry o (l.filter fun p => p.market = market) := by
  induction l with
  | nil => simp [OrderTable.putEntry, ho]
  | cons p rest ih =>
    obtain ⟨hp, hrest⟩ := List.forall_mem_cons.1 hl
    by_cases hid : p.id = o.id
    · simp [OrderTable.putEntry, hid, ho, hp hid]
    · by_cases hmarket : p.market = market
      · simp [OrderTable.putEntry, hid, hmarket, ih hrest]
      · simp [OrderTable.putEntry, hid, hmarket, ih hrest]

/-- Where it does not, the orders of the market stay as they are. -/
theorem filter_putEntry_of_ne (ho : o.market ≠ market)
    (hl : ∀ p ∈ l, p.id = o.id → p.market ≠ market) :
    (OrderTable.putEntry o l).filter (fun p => p.market = market) =
      l.filter fun p => p.market = market := by
  induction l with
  | nil => simp [OrderTable.putEntry, ho]
  | cons p rest ih =>
    obtain ⟨hp, hrest⟩ := List.forall_mem_cons.1 hl
    by_cases hid : p.id = o.id
    · simp [OrderTable.putEntry, hid, ho, hp hid]
    · by_cases hmarket : p.market = market
      · simp [OrderTable.putEntry, hid, hmarket, ih hrest]
      · simp [OrderTable.putEntry, hid, hmarket, ih hrest]

end Put

namespace Store.Matches

variable {makerId takerId : OrderId} {quantity : Decimal} {maker taker : Order} {m : Match}
  (h : s.Matches stamp makerId takerId quantity fees maker taker m)

include h

theorem trade_market : m.trade.market = maker.market := by
  obtain ⟨-, -, -, q, -, b, -, f, -, ht⟩ := Trade.create_eq_ok_iff.1 h.trade_created
  rw [ht]
  rfl

theorem filled_maker_market : m.maker.market = maker.market :=
  (Order.sameTerms_of_fill h.maker_filled).market_eq

theorem filled_taker_market : m.taker.market = maker.market :=
  (Order.sameTerms_of_fill h.taker_filled).market_eq.trans h.tradable.sameMarket.symm

/-- The orders that are replaced are of the market of the match. -/
theorem market_of_replaced :
    (∀ p ∈ s.orders.entries, p.id = m.maker.id → p.market = maker.market) ∧
      ∀ p ∈ (s.orders.put m.maker).entries, p.id = m.taker.id → p.market = maker.market := by
  have hmaker : ∀ p ∈ s.orders.entries, p.id = m.maker.id → p.market = maker.market := by
    intro p hp hid
    have hfound := OrderTable.find?_of_mem hp
    rw [hid, h.filled_maker_id, h.maker_found] at hfound
    rw [Option.some.inj hfound]
  refine ⟨hmaker, fun p hp hid => ?_⟩
  obtain rfl | ⟨hp, -⟩ := OrderTable.mem_put_iff.1 hp
  · exact h.filled_maker_market
  · have hfound := OrderTable.find?_of_mem hp
    rw [hid, h.filled_taker_id, h.taker_found] at hfound
    rw [← Option.some.inj hfound]
    exact h.tradable.sameMarket.symm

/-- Other markets are left alone. -/
theorem ordersIn_of_ne (hmarket : maker.market ≠ market) :
    ((s.orders.put m.maker).put m.taker).entries.filter (fun o => o.market = market) =
      s.ordersIn market := by
  obtain ⟨hmaker, htaker⟩ := h.market_of_replaced
  refine (filter_putEntry_of_ne ?_ fun p hp hid => ?_).trans
    (filter_putEntry_of_ne ?_ fun p hp hid => ?_)
  · rw [h.filled_taker_market]
    exact hmarket
  · rw [htaker p hp hid]
    exact hmarket
  · rw [h.filled_maker_market]
    exact hmarket
  · rw [hmaker p hp hid]
    exact hmarket

theorem ordersIn_of_eq (hmarket : maker.market = market) :
    ((s.orders.put m.maker).put m.taker).entries.filter (fun o => o.market = market) =
      OrderTable.putEntry m.taker (OrderTable.putEntry m.maker (s.ordersIn market)) := by
  obtain ⟨hmaker, htaker⟩ := h.market_of_replaced
  rw [hmarket] at hmaker htaker
  rw [Store.ordersIn, ← filter_putEntry_of_eq (h.filled_maker_market.trans hmarket) hmaker]
  exact filter_putEntry_of_eq (h.filled_taker_market.trans hmarket) htaker

end Store.Matches

/-! ### Matching a pair -/

/-- Whether two orders are matched does not depend on clock readings. -/
theorem Match.exists_execute {maker taker maker' taker' : Order} {quantity : Decimal} {m : Match}
    (hmaker : maker.timeless = maker'.timeless) (htaker : taker.timeless = taker'.timeless)
    (h : (Match.execute stamp maker taker quantity fees).run = .ok (.ok m)) (stamp' : Stamp) :
    ∃ m', (Match.execute stamp' maker' taker' quantity fees).run = .ok (.ok m') := by
  obtain ⟨htradable, htrade, hm, ht⟩ := Match.execute_eq_ok_iff.1 h
  obtain ⟨hside, hmarket, hpos, quote, hquote, b, hb, f, hf, -⟩ := Trade.create_eq_ok_iff.1 htrade
  obtain ⟨hmrest, -, hmroom, r, hr, -⟩ := Order.fill_eq_ok_iff.1 hm
  obtain ⟨htrest, -, htroom, r', hr', -⟩ := Order.fill_eq_ok_iff.1 ht
  rw [Order.eq_of_timeless_eq hmaker, Order.eq_of_timeless_eq htaker]
  have hcrossing := htradable.crossing
  unfold Trade.buyAndSell at hcrossing
  refine ⟨⟨_, _, _⟩, Match.execute_eq_ok_iff.2 ⟨⟨hpos, hmrest, htrest, hmroom, htroom, hside,
    hmarket, ?_⟩, Trade.create_eq_ok_iff.2 ⟨hside, hmarket, hpos, quote, hquote, b, hb, f, hf, rfl⟩,
    Order.fill_eq_ok_iff.2 ⟨hmrest, hpos, hmroom, r, hr, rfl⟩,
    Order.fill_eq_ok_iff.2 ⟨htrest, hpos, htroom, r', hr', rfl⟩⟩⟩
  unfold Trade.buyAndSell
  cases hs : maker.side <;> simpa [hs] using hcrossing

namespace Store

/-- An order of the view is found in the store, and in the view without its clock reading. -/
theorem find?_of_view {id : OrderId} (h : ∃ o ∈ (s.view market).orders, o.id = id) :
    ∃ p, s.orders.find? id = some p ∧ p.market = market ∧
      (s.view market).orders.find? (·.id = id) = some p.timeless := by
  obtain ⟨o, ho, rfl⟩ := h
  obtain ⟨p, hp, rfl⟩ := List.mem_map.1 ho
  obtain ⟨hmem, hmarket⟩ := List.mem_filter.1 hp
  let t : OrderTable :=
    ⟨s.ordersIn market, s.orders.ids_nodup.sublist (List.filter_sublist.map Order.id)⟩
  have hfound : t.find? p.id = some p := OrderTable.find?_of_mem hp
  have hview : (s.view market).orders.find? (·.id = p.id) = (t.find? p.id).map Order.timeless :=
    (OrderTable.find?_timeless t p.id).symm
  refine ⟨p, OrderTable.find?_of_mem hmem, of_decide_eq_true hmarket, ?_⟩
  show (s.view market).orders.find? (·.id = p.id) = _
  rw [hview, hfound]
  rfl

/-- The view after a match of two of its orders. -/
theorem Matches.view_eq {makerId takerId : OrderId} {quantity : Decimal} {maker taker : Order}
    {m : Match} (h : s.Matches stamp makerId takerId quantity fees maker taker m)
    (hmarket : maker.market = market) :
    (s.record m).view market =
      { orders := OrderTable.putEntry m.taker.timeless
          (OrderTable.putEntry m.maker.timeless (s.view market).orders)
        trades := (s.view market).trades ++ [m.trade.unnamed] } := by
  have horders : (s.record m).ordersIn market =
      OrderTable.putEntry m.taker (OrderTable.putEntry m.maker (s.ordersIn market)) :=
    h.ordersIn_of_eq hmarket
  have htrades : (s.record m).tradesIn market = s.tradesIn market ++ [m.trade] := by
    have hin : m.trade.market = market := h.trade_market.trans hmarket
    show (s.trades ++ [m.trade]).filter _ = _
    rw [List.filter_append, List.filter_singleton, decide_eq_true hin]
    rfl
  ext1
  · show ((s.record m).ordersIn market).map Order.timeless = _
    rw [horders, OrderTable.map_putEntry, OrderTable.map_putEntry]
    rfl
  · show ((s.record m).tradesIn market).map Trade.unnamed = _
    rw [htrades, List.map_append]
    rfl

/-- What a match of a pair does to the store, its match in the view does to the view. -/
theorem commitMatch_view (hs : s.Regular) (stamp : Stamp) (fees : FeeSchedule)
    (hmaker : ∃ o ∈ (s.view market).orders, o.id = c.makerOrderId)
    (htaker : ∃ o ∈ (s.view market).orders, o.id = c.takerOrderId) :
    let result := s.commitMatch stamp c.makerOrderId c.takerOrderId c.quantity fees
    match (s.view market).commitMatch fees c with
    | none => ∃ cause, result = (.ok (.conflict cause), s)
    | some (t, v) => ∃ t', result.1 = .ok (.executed t') ∧ t'.unnamed = t ∧
        result.2.view market = v := by
  obtain ⟨maker, hmaker, hmarket, hmaker_view⟩ := find?_of_view hmaker
  obtain ⟨taker, htaker, -, htaker_view⟩ := find?_of_view htaker
  have htimeless : ∀ o : Order, o.timeless.timeless = o.timeless := fun _ => rfl
  unfold MarketView.commitMatch
  rw [hmaker_view, htaker_view]
  dsimp only
  obtain ⟨r, hr⟩ := Match.exists_outcome .blank maker.timeless taker.timeless c.quantity fees
  rw [hr]
  cases r with
  | ok m₀ =>
    obtain ⟨htradable, htrade₀, hmaker₀, htaker₀⟩ := Match.execute_eq_ok_iff.1 hr
    obtain ⟨m, hexec⟩ := Match.exists_execute (htimeless maker) (htimeless taker) hr stamp
    have hne : c.makerOrderId ≠ c.takerOrderId := by
      intro hid
      rw [hid, htaker] at hmaker
      have hsame : taker = maker := Option.some.inj hmaker
      exact htradable.opposite (by rw [hsame])
    have hm : s.Matches stamp c.makerOrderId c.takerOrderId c.quantity fees maker taker m :=
      ⟨hne, hmaker, htaker, hexec⟩
    obtain ⟨r, -, hcommit⟩ := hm.commitMatch_eq hs
    have htrade : m.trade.unnamed = m₀.trade := by
      have hunnamed : m.trade.unnamed = m₀.trade.unnamed :=
        Trade.create_timeless (htimeless maker).symm (htimeless taker).symm hm.trade_created htrade₀
      obtain ⟨-, -, -, q, -, b, -, f, -, ht⟩ := Trade.create_eq_ok_iff.1 htrade₀
      rw [hunnamed, ht]
      rfl
    have hview := hm.view_eq hmarket
    rw [htrade, Order.fill_timeless (htimeless maker).symm hm.maker_filled hmaker₀,
      Order.fill_timeless (htimeless taker).symm hm.taker_filled htaker₀] at hview
    dsimp only
    rw [hcommit]
    exact ⟨m.trade, rfl, htrade, hview⟩
  | error cause =>
    refine commitMatch_conflict_of_forall fun maker' taker' m hm => ?_
    have hmaker_eq : maker' = maker := Option.some.inj (hm.maker_found.symm.trans hmaker)
    have htaker_eq : taker' = taker := Option.some.inj (hm.taker_found.symm.trans htaker)
    have hexec := hm.executed
    rw [hmaker_eq, htaker_eq] at hexec
    obtain ⟨m₀, h₀⟩ :=
      Match.exists_execute (htimeless maker).symm (htimeless taker).symm hexec .blank
    rw [hr] at h₀
    cases h₀

/-! ### What others see of a call -/

/-- Only orders and trades of one market are different. -/
structure ChangesOnly (market : Market) (s s' : Store) : Prop where
  ids_eq : s'.orders.entries.map Order.id = s.orders.entries.map Order.id
  orders_eq : ∀ other ≠ market, s'.ordersIn other = s.ordersIn other
  trades_eq : ∀ other ≠ market, s'.tradesIn other = s.tradesIn other

namespace ChangesOnly

theorem refl (market : Market) (s : Store) : ChangesOnly market s s :=
  ⟨rfl, fun _ _ => rfl, fun _ _ => rfl⟩

theorem trans {s'' : Store} (h : ChangesOnly market s s') (h' : ChangesOnly market s' s'') :
    ChangesOnly market s s'' where
  ids_eq := h'.ids_eq.trans h.ids_eq
  orders_eq other hne := (h'.orders_eq other hne).trans (h.orders_eq other hne)
  trades_eq other hne := (h'.trades_eq other hne).trans (h.trades_eq other hne)

theorem view_eq (h : ChangesOnly market s s') (hne : market' ≠ market) :
    s'.view market' = s.view market' := by
  rw [view, view, h.orders_eq market' hne, h.trades_eq market' hne]

theorem of_eq (horders : s'.orders = s.orders) (htrades : s'.trades = s.trades) :
    ChangesOnly market s s' := by
  refine ⟨by rw [horders], fun other _ => ?_, fun other _ => ?_⟩
  · rw [ordersIn, ordersIn, horders]
  · rw [tradesIn, tradesIn, htrades]

end ChangesOnly

theorem Matches.changesOnly {makerId takerId : OrderId} {quantity : Decimal} {maker taker : Order}
    {m : Match} (h : s.Matches stamp makerId takerId quantity fees maker taker m)
    (hmarket : maker.market = market) (horders : s'.orders = (s.orders.put m.maker).put m.taker)
    (htrades : s'.trades = s.trades ++ [m.trade]) : ChangesOnly market s s' := by
  refine ⟨?_, fun other hne => ?_, fun other hne => ?_⟩
  · rw [horders, h.entries_eq, List.map_map]
    refine List.map_congr_left fun o _ => ?_
    rw [Function.comp_apply]
    split
    · rename_i hid
      rw [h.filled_maker_id, hid]
    · split
      · rename_i hid
        rw [h.filled_taker_id, hid]
      · rfl
  · have hother : maker.market ≠ other := fun heq => hne (heq.symm.trans hmarket)
    rw [ordersIn, horders]
    exact h.ordersIn_of_ne hother
  · have hother : ¬m.trade.market = other := fun heq =>
      hne (heq.symm.trans (h.trade_market.trans hmarket))
    rw [tradesIn, htrades, List.filter_append, List.filter_singleton, decide_eq_false hother]
    exact List.append_nil _

end Store

/-- A call that a run of a market may make: it inserts and moves no orders, and matches only two of
the market. -/
def Call.Within : Call → MarketView → Prop
  | .store (.insertOrder _), _ => False
  | .store (.transitionOrder _ _), _ => False
  | .store (.commitMatch makerId takerId _ _), v =>
    (∃ o ∈ v.orders, o.id = makerId) ∧ ∃ o ∈ v.orders, o.id = takerId
  | _, _ => True

/-- Nobody outside of a market notices the calls of its run. -/
theorem Call.Within.changesOnly {call : Call} (h : call.Within (s.view market)) (stamp : Stamp)
    (ledger : (c : LedgerCall) → Outcome LedgerError c.Answer) :
    s.ChangesOnly market (Floor.answer s stamp ledger call).2 := by
  cases call with
  | store c =>
    have hs' : (Floor.answer s stamp ledger (.store c)).2 = (s.perform stamp c).2 := rfl
    rw [hs']
    cases s.ordersStep stamp c with
    | unchanged horders htrades => exact .of_eq horders htrades
    | inserted _ _ _ => exact absurd h id
    | transitioned _ _ _ _ => exact absurd h id
    | matched hm horders htrades =>
      obtain ⟨p, hp, hmarket, -⟩ := Store.find?_of_view h.1
      rw [hm.maker_found] at hp
      rw [← Option.some.inj hp] at hmarket
      exact hm.changesOnly hmarket horders htrades
  | _ => exact .refl market s

theorem Call.Within.regular {call : Call} (h : call.Within v) (hs : s.Regular) (stamp : Stamp)
    (ledger : (c : LedgerCall) → Outcome LedgerError c.Answer) :
    (Floor.answer s stamp ledger call).2.Regular := by
  cases call with
  | store c =>
    refine hs.perform stamp ?_
    cases c with
    | insertOrder o => exact absurd h id
    | _ => trivial
  | _ => exact hs

end Bourse
