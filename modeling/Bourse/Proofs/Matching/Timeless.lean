import Bourse.Proofs.Matching.Selection

/-!
# Stores that differ in clock readings

Which pair is selected, and what its match does, depends neither on the times at which orders were
changed nor on the name that a trade is given. So stores with the same orders but for these times
stay such stores when the same pair is matched in both.
-/

namespace Bourse

/-- An order without the time of its last change. -/
def Order.timeless (o : Order) : Order :=
  { o with updatedAt := none }

/-- A trade without its name and time. -/
def Trade.unnamed (t : Trade) : Trade :=
  { t with id := ⟨.ofNat 0⟩, createdAt := .epoch }

/-- The orders of two stores are the same but for the times of their last change. -/
def Store.SameOrders (s s' : Store) : Prop :=
  s.orders.entries.map Order.timeless = s'.orders.entries.map Order.timeless

variable {allowSelfTrade : Bool} {s s' : Store} {o o' p p' : Order} {id : OrderId}
  {q : Decimal} {fees : FeeSchedule}

namespace Order

theorem eq_of_timeless_eq (h : o.timeless = p.timeless) :
    p = { o with updatedAt := p.updatedAt } := by
  have hp : p = { p.timeless with updatedAt := p.updatedAt } := rfl
  rw [← h] at hp
  exact hp

theorem fill_timeless {role : OrderRole} {now now' : Instant} (h : o.timeless = p.timeless)
    (ho : (o.fill q role now).run = .ok (.ok o')) (hp : (p.fill q role now').run = .ok (.ok p')) :
    o'.timeless = p'.timeless := by
  obtain ⟨-, -, -, r, hr, rfl⟩ := fill_eq_ok_iff.1 ho
  obtain ⟨-, -, -, r', hr', rfl⟩ := fill_eq_ok_iff.1 hp
  have hremaining : p.remaining = o.remaining := (congrArg remaining h).symm
  rw [hremaining, hr] at hr'
  obtain rfl := Except.ok.inj hr'
  rw [eq_of_timeless_eq h]
  rfl

end Order

theorem Trade.create_timeless {maker taker maker' taker' : Order} {stamp stamp' : Stamp}
    {t t' : Trade} (hmaker : maker.timeless = maker'.timeless)
    (htaker : taker.timeless = taker'.timeless)
    (ht : Trade.create stamp maker taker q fees = .ok t)
    (ht' : Trade.create stamp' maker' taker' q fees = .ok t') : t.unnamed = t'.unnamed := by
  rw [Order.eq_of_timeless_eq hmaker, Order.eq_of_timeless_eq htaker] at ht'
  obtain ⟨-, -, -, quote, hquote, b, hb, f, hf, rfl⟩ := Trade.create_eq_ok_iff.1 ht
  obtain ⟨-, -, -, quote', hquote', b', hb', f', hf', rfl⟩ := Trade.create_eq_ok_iff.1 ht'
  obtain rfl : quote = quote' := Option.some.inj (hquote.symm.trans hquote')
  obtain rfl : b = b' := Option.some.inj (hb.symm.trans hb')
  obtain rfl : f = f' := Option.some.inj (hf.symm.trans hf')
  unfold unnamed buyAndSell
  dsimp only
  cases maker.side <;> rfl

namespace OrderTable

theorem map_putEntry (o : Order) (l : List Order) :
    (putEntry o l).map Order.timeless = putEntry o.timeless (l.map Order.timeless) := by
  induction l with
  | nil => rfl
  | cons p rest ih =>
    rw [List.map_cons, putEntry, putEntry]
    by_cases h : p.id = o.id
    · have h' : p.timeless.id = o.timeless.id := h
      rw [if_pos h, if_pos h']
      rfl
    · have h' : ¬p.timeless.id = o.timeless.id := h
      rw [if_neg h, if_neg h', List.map_cons, ih]

theorem find?_timeless (t : OrderTable) (id : OrderId) :
    (t.find? id).map Order.timeless = (t.entries.map Order.timeless).find? (·.id = id) := by
  rw [List.find?_map]
  rfl

end OrderTable

namespace Store.SameOrders

variable (h : s.SameOrders s')

include h

theorem find? (id : OrderId) :
    (s.orders.find? id).map Order.timeless = (s'.orders.find? id).map Order.timeless := by
  rw [OrderTable.find?_timeless, OrderTable.find?_timeless, h]

theorem timeless_eq (ho : s.orders.find? id = some o) (hp : s'.orders.find? id = some p) :
    o.timeless = p.timeless := by
  have hfind := h.find? id
  rw [ho, hp] at hfind
  exact Option.some.inj hfind

theorem put (ho : o.timeless = p.timeless) :
    (s.orders.put o).entries.map Order.timeless = (s'.orders.put p).entries.map Order.timeless := by
  rw [OrderTable.put, OrderTable.put, OrderTable.map_putEntry, OrderTable.map_putEntry, h, ho]

end Store.SameOrders

/-! ### Selecting a pair -/

theorem Store.map_sideOf (s : Store) (market : Market) (side : Side) :
    (s.sideOf market side).map Order.timeless =
      sortByPriority side (((s.orders.entries.map Order.timeless).filter fun o =>
        o.isResting && o.side = side && o.market = market).filter Order.isResting) := by
  have hle : ∀ a b : Order, priorityLe side a b = priorityLe side a.timeless b.timeless :=
    fun _ _ => rfl
  rw [sideOf, sortByPriority, List.map_mergeSort fun a _ b _ => hle a b, restingOrders,
    List.filter_map, List.filter_map]
  rfl

theorem MatchCandidate.between_timeless (buy sell : Order) :
    MatchCandidate.between buy.timeless sell.timeless = .between buy sell := by
  have htime : Order.timeLe buy.timeless sell.timeless = Order.timeLe buy sell := rfl
  unfold between makerAndTaker
  rw [htime]
  by_cases h : Order.timeLe buy sell = true
  · rw [if_pos h, if_pos h]
    rfl
  · rw [if_neg h, if_neg h]
    rfl

theorem asBuyAndSell_timeless (o other : Order) : asBuyAndSell o.timeless other.timeless =
    ((asBuyAndSell o other).1.timeless, (asBuyAndSell o other).2.timeless) := by
  have hside : o.timeless.side = o.side := rfl
  unfold asBuyAndSell
  rw [hside]
  cases o.side <;> rfl

theorem counterparty_eq (o : Order) (l : List Order) : counterparty allowSelfTrade o l =
    if o.isResting = true then
      (((l.filter (isOpposite o)).takeWhile fun other =>
          crosses (asBuyAndSell o other).1 (asBuyAndSell o other).2).find?
        (ownersMayTrade allowSelfTrade o)).map fun other =>
          MatchCandidate.between (asBuyAndSell o other).1 (asBuyAndSell o other).2
    else none := rfl

theorem counterparty_timeless (o : Order) (l : List Order) :
    counterparty allowSelfTrade o.timeless (l.map Order.timeless) =
      counterparty allowSelfTrade o l := by
  have hcrosses : (fun other : Order => crosses (asBuyAndSell o.timeless other).1
      (asBuyAndSell o.timeless other).2) ∘ Order.timeless =
        fun other => crosses (asBuyAndSell o other).1 (asBuyAndSell o other).2 := by
    funext other
    rw [Function.comp_apply, asBuyAndSell_timeless]
    rfl
  have hbetween : (fun other : Order => MatchCandidate.between (asBuyAndSell o.timeless other).1
      (asBuyAndSell o.timeless other).2) ∘ Order.timeless =
        fun other => .between (asBuyAndSell o other).1 (asBuyAndSell o other).2 := by
    funext other
    rw [Function.comp_apply, asBuyAndSell_timeless]
    exact MatchCandidate.between_timeless _ _
  rw [counterparty_eq, counterparty_eq]
  by_cases hrest : o.isResting = true
  · have hrest' : o.timeless.isResting = true := hrest
    rw [if_pos hrest, if_pos hrest', List.filter_map, List.takeWhile_map, List.find?_map,
      Option.map_map, hcrosses, hbetween]
    rfl
  · have hrest' : ¬o.timeless.isResting = true := hrest
    rw [if_neg hrest, if_neg hrest']

theorem Store.SameOrders.incomingCandidate (h : s.SameOrders s') (id : OrderId) :
    s.incomingCandidate allowSelfTrade id = s'.incomingCandidate allowSelfTrade id := by
  have hside : ∀ market side, (s.sideOf market side).map Order.timeless =
      (s'.sideOf market side).map Order.timeless := by
    intro market side
    rw [map_sideOf, map_sideOf, h]
  have hfind := h.find? id
  unfold Store.incomingCandidate
  cases hs : s.orders.find? id with
  | none =>
    rw [hs, Option.map_none, eq_comm, Option.map_eq_none_iff] at hfind
    rw [hfind]
    rfl
  | some o =>
    rw [hs, Option.map_some, eq_comm, Option.map_eq_some_iff] at hfind
    obtain ⟨p, hp, hpo⟩ := hfind
    have hmarket : p.timeless.market = o.timeless.market := congrArg Order.market hpo
    have hmarket : p.market = o.market := hmarket
    have hpside : p.timeless.side = o.timeless.side := congrArg Order.side hpo
    have hpside : p.side = o.side := hpside
    rw [hp, Option.bind_some, Option.bind_some, ← counterparty_timeless o,
      ← counterparty_timeless p, hpo, hmarket, hpside, hside]

/-! ### Matching a pair -/

/-- Stores that differ in clock readings still do so after the same pair is matched in both, and
the trades are the same but for name and time. -/
theorem Store.SameOrders.matched (h : s.SameOrders s') {stamp stamp' : Stamp}
    {makerId takerId : OrderId} {maker taker maker' taker' : Order} {m m' : Match}
    (hm : s.Matches stamp makerId takerId q fees maker taker m)
    (hm' : s'.Matches stamp' makerId takerId q fees maker' taker' m') :
    m.trade.unnamed = m'.trade.unnamed ∧ (s.record m).SameOrders (s'.record m') := by
  have hmaker := h.timeless_eq hm.maker_found hm'.maker_found
  have htaker := h.timeless_eq hm.taker_found hm'.taker_found
  refine ⟨Trade.create_timeless hmaker htaker hm.trade_created hm'.trade_created, ?_⟩
  have hmaker_put := h.put (Order.fill_timeless hmaker hm.maker_filled hm'.maker_filled)
  have hfirst : Store.SameOrders { s with orders := s.orders.put m.maker }
      { s' with orders := s'.orders.put m'.maker } := hmaker_put
  exact hfirst.put (Order.fill_timeless htaker hm.taker_filled hm'.taker_filled)

end Bourse
