import Bourse.Proofs.Matching.Candidates
import Bourse.Proofs.Matching.Priority
import Bourse.Proofs.Store.Calls

/-!
# Two ways to select a pair

A market is searched buy by buy for a pair, an incoming order looks along the other side only. Where
every pair of the market that may trade contains the incoming order, both find the same pair.
-/

namespace Bourse

/-- A buy and a sell of one market that may trade with each other. -/
structure Admissible (allowSelfTrade : Bool) (buy sell : Order) : Prop where
  buy_resting : buy.isResting = true
  sell_resting : sell.isResting = true
  buy_side : buy.side = .buy
  sell_side : sell.side = .sell
  market_eq : buy.market = sell.market
  crossing : sell.price ≤ buy.price
  owners : allowSelfTrade = true ∨ buy.userId ≠ sell.userId

namespace Store

/-- Every pair of a market that may trade contains the order with a given name. -/
def PairsContain (allowSelfTrade : Bool) (s : Store) (market : Market) (id : OrderId) : Prop :=
  ∀ buy ∈ s.orders.entries, ∀ sell ∈ s.orders.entries, Admissible allowSelfTrade buy sell →
    buy.market = market → buy.id = id ∨ sell.id = id

/-- The pair of a market that trades next. -/
def bestCandidate (allowSelfTrade : Bool) (s : Store) (market : Market) : Option MatchCandidate :=
  bestMatch allowSelfTrade (s.sideOf market .buy) (s.sideOf market .sell)

/-- The best partner of an order, if it is in the book. -/
def incomingCandidate (allowSelfTrade : Bool) (s : Store) (id : OrderId) : Option MatchCandidate :=
  (s.orders.find? id).bind fun incoming =>
    counterparty allowSelfTrade incoming (s.sideOf incoming.market incoming.side.opposite)

end Store

variable {allowSelfTrade : Bool} {s s' : Store} {market : Market} {o buy sell : Order}
  {id : OrderId}

/-- Whether a pair that is looked at may trade. -/
def mayTrade (allowSelfTrade : Bool) (buy sell : Order) : Bool :=
  crosses buy sell && ownersMayTrade allowSelfTrade buy sell

theorem admissible_of_mem (hbuy : buy ∈ s.sideOf market .buy) (hsell : sell ∈ s.sideOf market .sell)
    (h : mayTrade allowSelfTrade buy sell = true) : Admissible allowSelfTrade buy sell := by
  obtain ⟨-, hrest, hside, hmarket⟩ := Store.mem_sideOf_iff.1 hbuy
  obtain ⟨-, hrest', hside', hmarket'⟩ := Store.mem_sideOf_iff.1 hsell
  rw [mayTrade, Bool.and_eq_true, crosses, decide_eq_true_eq, ownersMayTrade_iff] at h
  exact ⟨hrest, hrest', hside, hside', hmarket.trans hmarket'.symm, h.1, h.2⟩

theorem filter_sideOf_isResting (s : Store) (market : Market) (side : Side) :
    (s.sideOf market side).filter Order.isResting = s.sideOf market side :=
  List.filter_eq_self.2 fun _ ho => (Store.mem_sideOf_iff.1 ho).2.1

theorem pairwise_sideOf (s : Store) (market : Market) (side : Side) :
    (s.sideOf market side).Pairwise fun a b => priorityKey side a ≤ priorityKey side b :=
  pairwise_sortByPriority side _

/-- A buy's first sell in priority order is the first one of all that it may trade with. -/
theorem firstSellFor_eq {sells : List Order}
    (h : sells.Pairwise fun a b => priorityKey .sell a ≤ priorityKey .sell b) (buy : Order) :
    firstSellFor allowSelfTrade buy sells =
      (sells.filter Order.isResting).find? (mayTrade allowSelfTrade buy) :=
  find?_takeWhile ((h.filter Order.isResting).imp fun h => crosses_of_sell_le h)

theorem firstSellFor_sideOf (s : Store) (market : Market) (buy : Order) :
    firstSellFor allowSelfTrade buy (s.sideOf market .sell) =
      (s.sideOf market .sell).find? (mayTrade allowSelfTrade buy) := by
  rw [firstSellFor_eq (pairwise_sideOf s market .sell), filter_sideOf_isResting]

theorem bestCandidate_eq (s : Store) (market : Market) : s.bestCandidate allowSelfTrade market =
    (s.sideOf market .buy).findSome? fun buy =>
      ((s.sideOf market .sell).find? (mayTrade allowSelfTrade buy)).map
        (MatchCandidate.between buy) := by
  rw [Store.bestCandidate, bestMatch, filter_sideOf_isResting]
  exact congrArg (List.findSome? · _) (funext fun buy => by rw [firstSellFor_sideOf])

/-- A stored order is on one side of a market only. -/
theorem opposite_of_mem_sideOf {p : Order} (ho : o ∈ s.orders.entries)
    (hp : p ∈ s.sideOf market o.side.opposite) : p.side ≠ o.side ∧ p.id ≠ o.id := by
  obtain ⟨hmem, -, hside, -⟩ := Store.mem_sideOf_iff.1 hp
  have hne : p.side ≠ o.side := by
    rw [hside]
    cases o.side <;> exact fun h => (by cases h)
  refine ⟨hne, fun hid => ?_⟩
  obtain rfl := List.inj_on_of_nodup_map s.orders.ids_nodup hmem ho hid
  exact hne rfl

/-- In priority order, the partner of an order is the first one of all that it may trade with. -/
theorem counterparty_eq_find? {orders : List Order} (hrest : o.isResting = true)
    (hsorted : orders.Pairwise fun a b =>
      priorityKey o.side.opposite a ≤ priorityKey o.side.opposite b)
    (hopposite : ∀ p ∈ orders, p.side ≠ o.side ∧ p.id ≠ o.id) :
    counterparty allowSelfTrade o orders =
      ((orders.filter Order.isResting).find? fun p =>
        mayTrade allowSelfTrade (asBuyAndSell o p).1 (asBuyAndSell o p).2).map fun p =>
          .between (asBuyAndSell o p).1 (asBuyAndSell o p).2 := by
  have hfilter : orders.filter (isOpposite o) = orders.filter Order.isResting := by
    refine List.filter_congr fun p hp => ?_
    obtain ⟨hside, hid⟩ := hopposite p hp
    rw [isOpposite, decide_eq_true hside, decide_eq_true hid, Bool.and_true, Bool.and_true]
  have hcrosses : ∀ {a b : Order}, priorityKey o.side.opposite a ≤ priorityKey o.side.opposite b →
      crosses (asBuyAndSell o b).1 (asBuyAndSell o b).2 = true →
        crosses (asBuyAndSell o a).1 (asBuyAndSell o a).2 = true := by
    unfold asBuyAndSell
    cases o.side with
    | buy => exact crosses_of_sell_le
    | sell => exact crosses_of_buy_le
  have hmay : ∀ p, (crosses (asBuyAndSell o p).1 (asBuyAndSell o p).2 &&
      ownersMayTrade allowSelfTrade o p) =
        mayTrade allowSelfTrade (asBuyAndSell o p).1 (asBuyAndSell o p).2 := by
    intro p
    unfold mayTrade asBuyAndSell
    cases o.side with
    | buy => rfl
    | sell => rw [ownersMayTrade_comm]
  rw [counterparty, if_pos hrest, hfilter]
  refine congrArg (Option.map _)
    ((find?_takeWhile ((hsorted.filter Order.isResting).imp hcrosses)).trans ?_)
  exact congrArg (List.find? · _) (funext hmay)

/-- The partner of a stored order on the other side of a market. -/
theorem counterparty_sideOf (ho : o ∈ s.orders.entries) (hrest : o.isResting = true) :
    counterparty allowSelfTrade o (s.sideOf market o.side.opposite) =
      ((s.sideOf market o.side.opposite).find? fun p =>
        mayTrade allowSelfTrade (asBuyAndSell o p).1 (asBuyAndSell o p).2).map fun p =>
          .between (asBuyAndSell o p).1 (asBuyAndSell o p).2 := by
  rw [counterparty_eq_find? hrest (pairwise_sideOf s market _), filter_sideOf_isResting]
  exact fun p hp => opposite_of_mem_sideOf ho hp

theorem counterparty_of_buy (ho : o ∈ s.orders.entries) (hrest : o.isResting = true)
    (hside : o.side = .buy) :
    counterparty allowSelfTrade o (s.sideOf market .sell) =
      ((s.sideOf market .sell).find? (mayTrade allowSelfTrade o)).map
        (MatchCandidate.between o) := by
  have h : counterparty allowSelfTrade o (s.sideOf market o.side.opposite) = _ :=
    counterparty_sideOf ho hrest
  unfold asBuyAndSell at h
  rwa [hside] at h

theorem counterparty_of_sell (ho : o ∈ s.orders.entries) (hrest : o.isResting = true)
    (hside : o.side = .sell) :
    counterparty allowSelfTrade o (s.sideOf market .buy) =
      ((s.sideOf market .buy).find? (mayTrade allowSelfTrade · o)).map
        (MatchCandidate.between · o) := by
  have h : counterparty allowSelfTrade o (s.sideOf market o.side.opposite) = _ :=
    counterparty_sideOf ho hrest
  unfold asBuyAndSell at h
  rwa [hside] at h

/-- Where all elements but one give nothing, that one decides. -/
theorem findSome?_eq_of_mem {α β : Type} {f : α → Option β} {a : α} {l : List α} (ha : a ∈ l)
    (h : ∀ b ∈ l, b ≠ a → f b = none) : l.findSome? f = f a := by
  induction l with
  | nil => cases ha
  | cons b rest ih =>
    rw [List.findSome?_cons]
    by_cases hb : b = a
    · subst hb
      cases hfb : f b with
      | some c => rfl
      | none =>
        refine List.findSome?_eq_none_iff.2 fun x hx => ?_
        by_cases hxb : x = b
        · rw [hxb, hfb]
        · exact h x (List.mem_cons_of_mem b hx) hxb
    · rw [h b List.mem_cons_self hb]
      have ha' : a ∈ rest := (List.mem_cons.1 ha).resolve_left fun e => hb e.symm
      exact ih ha' fun x hx => h x (List.mem_cons_of_mem b hx)

theorem findSome?_eq_map_find? {α β : Type} {f : α → Option β} {p : α → Bool} {g : α → β}
    {l : List α} (h : ∀ a ∈ l, f a = if p a = true then some (g a) else none) :
    l.findSome? f = (l.find? p).map g := by
  induction l with
  | nil => rfl
  | cons a rest ih =>
    rw [List.findSome?_cons, h a List.mem_cons_self]
    by_cases hp : p a = true
    · rw [if_pos hp, List.find?_cons_of_pos hp]
      rfl
    · rw [if_neg hp, List.find?_cons_of_neg hp]
      exact ih fun b hb => h b (List.mem_cons_of_mem a hb)

/-- Where every pair that may trade contains a stored order, that order is the buy or the sell. -/
theorem Store.PairsContain.eq_or_eq (h : s.PairsContain allowSelfTrade market o.id)
    (ho : o ∈ s.orders.entries) (hbuy : buy ∈ s.sideOf market .buy)
    (hsell : sell ∈ s.sideOf market .sell) (hmay : mayTrade allowSelfTrade buy sell = true) :
    buy = o ∨ sell = o := by
  have hname : ∀ p ∈ s.orders.entries, p.id = o.id → p = o := fun p hp hid =>
    List.inj_on_of_nodup_map s.orders.ids_nodup hp ho hid
  obtain ⟨hbuymem, -, -, hmarket⟩ := Store.mem_sideOf_iff.1 hbuy
  have hsellmem := (Store.mem_sideOf_iff.1 hsell).1
  rcases h buy hbuymem sell hsellmem (admissible_of_mem hbuy hsell hmay) hmarket with hid | hid
  · exact Or.inl (hname buy hbuymem hid)
  · exact Or.inr (hname sell hsellmem hid)

/-- Where only an incoming buy may trade, no other buy finds a sell. -/
theorem bestCandidate_eq_of_buy (ho : o ∈ s.orders.entries) (hrest : o.isResting = true)
    (hside : o.side = .buy) (h : s.PairsContain allowSelfTrade o.market o.id) :
    s.bestCandidate allowSelfTrade o.market =
      counterparty allowSelfTrade o (s.sideOf o.market .sell) := by
  have hin : o ∈ s.sideOf o.market .buy := Store.mem_sideOf_iff.2 ⟨ho, hrest, hside, rfl⟩
  rw [bestCandidate_eq, counterparty_of_buy ho hrest hside]
  refine findSome?_eq_of_mem hin fun buy hbuy hne => ?_
  rw [Option.map_eq_none_iff, List.find?_eq_none]
  intro sell hsell hmay
  rcases h.eq_or_eq ho hbuy hsell hmay with rfl | rfl
  · exact hne rfl
  · have hsell_side := (Store.mem_sideOf_iff.1 hsell).2.2.1
    rw [hside] at hsell_side
    cases hsell_side

/-- Where only an incoming sell may trade, every buy finds it or nothing. -/
theorem bestCandidate_eq_of_sell (ho : o ∈ s.orders.entries) (hrest : o.isResting = true)
    (hside : o.side = .sell) (h : s.PairsContain allowSelfTrade o.market o.id) :
    s.bestCandidate allowSelfTrade o.market =
      counterparty allowSelfTrade o (s.sideOf o.market .buy) := by
  have hin : o ∈ s.sideOf o.market .sell := Store.mem_sideOf_iff.2 ⟨ho, hrest, hside, rfl⟩
  rw [bestCandidate_eq, counterparty_of_sell ho hrest hside]
  refine findSome?_eq_map_find? fun buy hbuy => ?_
  have honly : ∀ sell ∈ s.sideOf o.market .sell,
      mayTrade allowSelfTrade buy sell = true → sell = o := by
    intro sell hsell hmay
    refine (h.eq_or_eq ho hbuy hsell hmay).resolve_left fun heq => ?_
    have hbuy_side := (Store.mem_sideOf_iff.1 hbuy).2.2.1
    rw [heq, hside] at hbuy_side
    cases hbuy_side
  cases hfound : (s.sideOf o.market .sell).find? (mayTrade allowSelfTrade buy) with
  | none =>
    rw [if_neg (List.find?_eq_none.1 hfound o hin)]
    rfl
  | some sell =>
    have hmay := List.find?_some hfound
    have heq := honly sell (List.mem_of_find?_eq_some hfound) hmay
    rw [heq] at hmay
    rw [heq, if_pos hmay]
    rfl

/-- Where every pair that may trade contains the incoming order, the search of the market and the
search for a partner agree. -/
theorem bestCandidate_eq_incomingCandidate (ho : s.orders.find? id = some o)
    (h : s.PairsContain allowSelfTrade o.market id) :
    s.bestCandidate allowSelfTrade o.market = s.incomingCandidate allowSelfTrade id := by
  obtain ⟨hmem, rfl⟩ := OrderTable.find?_eq_some_iff.1 ho
  rw [Store.incomingCandidate, ho, Option.bind_some]
  by_cases hrest : o.isResting = true
  · cases hside : o.side with
    | buy => exact bestCandidate_eq_of_buy hmem hrest hside h
    | sell => exact bestCandidate_eq_of_sell hmem hrest hside h
  · rw [counterparty, if_neg hrest, bestCandidate_eq, List.findSome?_eq_none_iff]
    intro buy hbuy
    rw [Option.map_eq_none_iff, List.find?_eq_none]
    intro sell hsell hmay
    rcases h.eq_or_eq hmem hbuy hsell hmay with rfl | rfl
    · exact hrest (Store.mem_sideOf_iff.1 hbuy).2.1
    · exact hrest (Store.mem_sideOf_iff.1 hsell).2.1

/-! ### What is selected can be matched -/

/-- Two orders that may trade can trade the smaller of what remains of them. -/
theorem Admissible.tradable (h : Admissible allowSelfTrade buy sell) :
    Tradable (MatchCandidate.makerAndTaker buy sell).1 (MatchCandidate.makerAndTaker buy sell).2
      (Decimal.min buy.remaining sell.remaining) := by
  have hbuy := Bool.and_eq_true_iff.1 h.buy_resting
  have hsell := Bool.and_eq_true_iff.1 h.sell_resting
  have hpos : (Decimal.min buy.remaining sell.remaining).isPos = true := by
    rw [Decimal.isPos_iff, Decimal.toRat_min]
    exact lt_min (Decimal.isPos_iff.1 hbuy.2) (Decimal.isPos_iff.1 hsell.2)
  have hbuy_room : ¬buy.remaining < Decimal.min buy.remaining sell.remaining := by
    rw [Decimal.not_lt_iff, Decimal.toRat_min]
    exact min_le_left _ _
  have hsell_room : ¬sell.remaining < Decimal.min buy.remaining sell.remaining := by
    rw [Decimal.not_lt_iff, Decimal.toRat_min]
    exact min_le_right _ _
  have hcross : ¬buy.price < sell.price := Decimal.not_lt_iff.2 (Decimal.le_iff.1 h.crossing)
  have hne : buy.side ≠ sell.side := by
    rw [h.buy_side, h.sell_side]
    exact fun e => (by cases e)
  unfold MatchCandidate.makerAndTaker
  by_cases htime : Order.timeLe buy sell = true
  · rw [if_pos htime]
    refine ⟨hpos, hbuy.1, hsell.1, hbuy_room, hsell_room, hne, h.market_eq, ?_⟩
    rw [Trade.buyAndSell, h.buy_side]
    exact hcross
  · rw [if_neg htime]
    refine ⟨hpos, hsell.1, hbuy.1, hsell_room, hbuy_room, hne.symm, h.market_eq.symm, ?_⟩
    rw [Trade.buyAndSell, h.sell_side]
    exact hcross

/-- The quantity of a pair is all that remains of one of its orders. -/
theorem MatchCandidate.quantity_between (buy sell : Order) :
    (between buy sell).quantity = (makerAndTaker buy sell).1.remaining ∨
      (between buy sell).quantity = (makerAndTaker buy sell).2.remaining := by
  have hmin : (between buy sell).quantity = buy.remaining ∨
      (between buy sell).quantity = sell.remaining := by
    show Decimal.min buy.remaining sell.remaining = _ ∨ Decimal.min _ _ = _
    unfold Decimal.min
    split
    · exact Or.inr rfl
    · exact Or.inl rfl
  unfold makerAndTaker
  split
  · exact hmin
  · exact hmin.symm

theorem Store.pair_of_incomingCandidate {c : MatchCandidate}
    (h : s.incomingCandidate allowSelfTrade id = some c) :
    ∃ buy ∈ s.orders.entries, ∃ sell ∈ s.orders.entries, Admissible allowSelfTrade buy sell ∧
      c = .between buy sell := by
  unfold incomingCandidate at h
  obtain ⟨o, ho, hc⟩ := Option.bind_eq_some_iff.1 h
  have hmem := OrderTable.mem_of_find? ho
  by_cases hrest : o.isResting = true
  · cases hside : o.side with
    | buy =>
      have hin : o ∈ s.sideOf o.market .buy := mem_sideOf_iff.2 ⟨hmem, hrest, hside, rfl⟩
      rw [hside, show Side.opposite .buy = .sell from rfl,
        counterparty_of_buy hmem hrest hside] at hc
      obtain ⟨sell, hfound, hc⟩ := Option.map_eq_some_iff.1 hc
      have hsell := List.mem_of_find?_eq_some hfound
      exact ⟨o, hmem, sell, (mem_sideOf_iff.1 hsell).1,
        admissible_of_mem hin hsell (List.find?_some hfound), hc.symm⟩
    | sell =>
      have hin : o ∈ s.sideOf o.market .sell := mem_sideOf_iff.2 ⟨hmem, hrest, hside, rfl⟩
      rw [hside, show Side.opposite .sell = .buy from rfl,
        counterparty_of_sell hmem hrest hside] at hc
      obtain ⟨buy, hfound, hc⟩ := Option.map_eq_some_iff.1 hc
      have hbuy := List.mem_of_find?_eq_some hfound
      have hmay : mayTrade allowSelfTrade buy o = true := by simpa using List.find?_some hfound
      exact ⟨buy, (mem_sideOf_iff.1 hbuy).1, o, hmem, admissible_of_mem hbuy hin hmay, hc.symm⟩
  · rw [counterparty, if_neg hrest] at hc
    cases hc

/-- Two stored orders that may trade can be matched, which takes all that remains of one of them. -/
theorem Store.tradable_of_admissible (hbuy : buy ∈ s.orders.entries) (hsell : sell ∈ s.orders.entries)
    (h : Admissible allowSelfTrade buy sell) :
    ∃ maker taker,
      (MatchCandidate.between buy sell).makerOrderId ≠
        (MatchCandidate.between buy sell).takerOrderId ∧
      s.orders.find? (MatchCandidate.between buy sell).makerOrderId = some maker ∧
      s.orders.find? (MatchCandidate.between buy sell).takerOrderId = some taker ∧
      Tradable maker taker (MatchCandidate.between buy sell).quantity ∧
      ((MatchCandidate.between buy sell).quantity = maker.remaining ∨
        (MatchCandidate.between buy sell).quantity = taker.remaining) ∧
      maker.market = buy.market := by
  have htradable := h.tradable
  have hmem : (MatchCandidate.makerAndTaker buy sell).1 ∈ s.orders.entries ∧
      (MatchCandidate.makerAndTaker buy sell).2 ∈ s.orders.entries ∧
      (MatchCandidate.makerAndTaker buy sell).1.market = buy.market := by
    unfold MatchCandidate.makerAndTaker
    split
    · exact ⟨hbuy, hsell, rfl⟩
    · exact ⟨hsell, hbuy, h.market_eq.symm⟩
  refine ⟨_, _, ?_, OrderTable.find?_of_mem hmem.1, OrderTable.find?_of_mem hmem.2.1, htradable,
    MatchCandidate.quantity_between buy sell, hmem.2.2⟩
  intro hid
  have heq := List.inj_on_of_nodup_map s.orders.ids_nodup hmem.1 hmem.2.1 hid
  exact htradable.opposite (congrArg Order.side heq)

theorem Store.tradable_of_incomingCandidate {c : MatchCandidate}
    (h : s.incomingCandidate allowSelfTrade id = some c) :
    ∃ maker taker, c.makerOrderId ≠ c.takerOrderId ∧
      s.orders.find? c.makerOrderId = some maker ∧ s.orders.find? c.takerOrderId = some taker ∧
      Tradable maker taker c.quantity ∧
      (c.quantity = maker.remaining ∨ c.quantity = taker.remaining) := by
  obtain ⟨buy, hbuy, sell, hsell, hadmissible, rfl⟩ := pair_of_incomingCandidate h
  obtain ⟨maker, taker, hne, hmaker, htaker, htradable, hquantity, -⟩ :=
    tradable_of_admissible hbuy hsell hadmissible
  exact ⟨maker, taker, hne, hmaker, htaker, htradable, hquantity⟩

/-- The pair of a market consists of a buy and a sell of it. -/
theorem Store.pair_of_bestCandidate {c : MatchCandidate}
    (h : s.bestCandidate allowSelfTrade market = some c) :
    ∃ buy ∈ s.sideOf market .buy, ∃ sell ∈ s.sideOf market .sell,
      Admissible allowSelfTrade buy sell ∧ c = .between buy sell := by
  rw [bestCandidate_eq] at h
  obtain ⟨buy, hbuy, hc⟩ := List.exists_of_findSome?_eq_some h
  obtain ⟨sell, hfound, hc⟩ := Option.map_eq_some_iff.1 hc
  have hsell := List.mem_of_find?_eq_some hfound
  exact ⟨buy, hbuy, sell, hsell, admissible_of_mem hbuy hsell (List.find?_some hfound), hc.symm⟩

/-! ### Selecting again -/

section Matched

variable {stamp : Stamp} {makerId takerId : OrderId} {quantity : Decimal} {fees : FeeSchedule}
  {maker taker p : Order} {m : Match}

/-- Only an order in the book is filled. -/
theorem Order.isResting_of_fill {o' : Order} {role : OrderRole} {now : Instant}
    (h : (o.fill quantity role now).run = .ok (.ok o')) : o.isResting = true := by
  obtain ⟨hrest, hpos, hroom, -⟩ := Order.fill_eq_ok_iff.1 h
  have hremaining : o.remaining.isPos = true :=
    Decimal.isPos_iff.2 ((Decimal.isPos_iff.1 hpos).trans_le (Decimal.not_lt_iff.1 hroom))
  exact Bool.and_eq_true_iff.2 ⟨hrest, hremaining⟩

/-- Every order after a match was there before, on the same terms, and was in the book if it is. -/
theorem Store.Matches.isResting_before
    (hm : s.Matches stamp makerId takerId quantity fees maker taker m)
    (hp : p ∈ ((s.orders.put m.maker).put m.taker).entries) :
    ∃ o ∈ s.orders.entries, o.SameTerms p ∧ (p.isResting = true → o.isResting = true) := by
  obtain ⟨o, ho, rfl | ⟨role, hfill⟩⟩ := hm.exists_before hp
  · exact ⟨p, ho, .refl p, id⟩
  · exact ⟨o, ho, Order.sameTerms_of_fill hfill, fun _ => Order.isResting_of_fill hfill⟩

/-- Every order is still there after a match, in its market. -/
theorem Store.Matches.find?_after
    (hm : s.Matches stamp makerId takerId quantity fees maker taker m)
    (ho : s.orders.find? id = some o) :
    ∃ p, ((s.orders.put m.maker).put m.taker).find? id = some p ∧ p.market = o.market := by
  obtain ⟨hmem, rfl⟩ := OrderTable.find?_eq_some_iff.1 ho
  obtain ⟨p, hp, rfl | ⟨role, hfill⟩⟩ := hm.exists_after hmem
  · exact ⟨p, OrderTable.find?_of_mem hp, rfl⟩
  · have hterms := Order.sameTerms_of_fill hfill
    exact ⟨p, OrderTable.find?_eq_some_iff.2 ⟨hp, hterms.id_eq⟩, hterms.market_eq⟩

/-- Orders in the book may trade whatever else has changed of them. -/
theorem Admissible.of_sameTerms {buy' sell' : Order} (h : Admissible allowSelfTrade buy' sell')
    (hbuy : buy.SameTerms buy') (hsell : sell.SameTerms sell') (hbuy_rest : buy.isResting = true)
    (hsell_rest : sell.isResting = true) : Admissible allowSelfTrade buy sell where
  buy_resting := hbuy_rest
  sell_resting := hsell_rest
  buy_side := hbuy.side_eq.symm.trans h.buy_side
  sell_side := hsell.side_eq.symm.trans h.sell_side
  market_eq := by rw [← hbuy.market_eq, ← hsell.market_eq, h.market_eq]
  crossing := by
    rw [← hbuy.price_eq, ← hsell.price_eq]
    exact h.crossing
  owners := by
    rw [← hbuy.userId_eq, ← hsell.userId_eq]
    exact h.owners

/-- No pair that may trade comes up by a match. -/
theorem Store.PairsContain.matched (h : s.PairsContain allowSelfTrade market id)
    (hm : s.Matches stamp makerId takerId quantity fees maker taker m)
    (horders : s'.orders = (s.orders.put m.maker).put m.taker) :
    s'.PairsContain allowSelfTrade market id := by
  intro buy' hbuy' sell' hsell' hadmissible hmarket
  rw [horders] at hbuy' hsell'
  obtain ⟨buy, hbuy, hbterms, hbrest⟩ := hm.isResting_before hbuy'
  obtain ⟨sell, hsell, hsterms, hsrest⟩ := hm.isResting_before hsell'
  rw [hbterms.id_eq, hsterms.id_eq]
  exact h buy hbuy sell hsell (hadmissible.of_sameTerms hbterms hsterms
    (hbrest hadmissible.buy_resting) (hsrest hadmissible.sell_resting))
    (hbterms.market_eq.symm.trans hmarket)

end Matched

end Bourse
