import Bourse.Proofs.Matching.Selection

/-!
# The best pair of two sides

The search of two sides in priority order finds a pair if any buy and any sell of them can trade.
It finds the first buy that can trade at all, with the first sell for it. Both stopping at the first
ask that is too expensive, and passing by orders that are not in the book or belong to the same
owner, never hide a pair.
-/

namespace Bourse

/-- A buy and a sell from anywhere that can trade with each other. -/
structure CanTrade (allowSelfTrade : Bool) (buy sell : Order) : Prop where
  buy_resting : buy.isResting = true
  sell_resting : sell.isResting = true
  crossing : sell.price ≤ buy.price
  owners : allowSelfTrade = true ∨ buy.userId ≠ sell.userId

/-- `o` is the first order of a list with a property. -/
def IsFirst (P : Order → Prop) (orders : List Order) (o : Order) : Prop :=
  ∃ before after, orders = before ++ o :: after ∧ P o ∧ ∀ p ∈ before, ¬P p

/-- The first buy of a list that can trade with any of some sells, and the first of these for it.
Nothing of a higher priority can trade in the place of either. -/
structure IsBestPair (allowSelfTrade : Bool) (buys sells : List Order) (buy sell : Order) :
    Prop where
  buy_first : IsFirst (fun b => ∃ a ∈ sells, CanTrade allowSelfTrade b a) buys buy
  sell_first : IsFirst (CanTrade allowSelfTrade buy) sells sell
  no_better_buy : ∀ b ∈ buys, priorityCmp .buy b buy = .lt → ∀ a ∈ sells,
    ¬CanTrade allowSelfTrade b a
  no_better_sell : ∀ a ∈ sells, priorityCmp .sell a sell = .lt → ¬CanTrade allowSelfTrade buy a

/-- `a` came before `b`. -/
def Order.CameBefore (a b : Order) : Prop :=
  a.createdAt.rank < b.createdAt.rank ∨
    a.createdAt.rank = b.createdAt.rank ∧ a.sequence < b.sequence

/-- What a candidate says of its two orders. The earlier one is the maker, whose limit is the price;
the buy is, if neither came before the other. -/
structure MatchCandidate.Pairs (c : MatchCandidate) (buy sell : Order) : Prop where
  buy_id : c.buyOrderId = buy.id
  sell_id : c.sellOrderId = sell.id
  quantity_eq : c.quantity = buy.remaining ∨ c.quantity = sell.remaining
  quantity_le : c.quantity ≤ buy.remaining ∧ c.quantity ≤ sell.remaining
  maker_sell : sell.CameBefore buy →
    c.makerOrderId = sell.id ∧ c.takerOrderId = buy.id ∧ c.price = sell.price
  maker_buy : ¬sell.CameBefore buy →
    c.makerOrderId = buy.id ∧ c.takerOrderId = sell.id ∧ c.price = buy.price

variable {allowSelfTrade : Bool} {side : Side} {a b o buy sell : Order}
  {buys sells orders : List Order} {c : MatchCandidate}

/-! ### The first of a list -/

namespace IsFirst

variable {P : Order → Prop}

theorem mem (h : IsFirst P orders o) : o ∈ orders := by
  obtain ⟨before, after, rfl, -, -⟩ := h
  exact List.mem_append_right before List.mem_cons_self

theorem holds (h : IsFirst P orders o) : P o := by
  obtain ⟨before, after, -, ho, -⟩ := h
  exact ho

/-- In priority order, nothing of a higher priority than the first one has the property. -/
theorem not_of_lt (h : IsFirst P orders o)
    (hsorted : orders.Pairwise fun a b => priorityKey side a ≤ priorityKey side b)
    (ha : a ∈ orders) (hlt : priorityKey side a < priorityKey side o) : ¬P a := by
  obtain ⟨before, after, rfl, -, hbefore⟩ := h
  rcases List.mem_append.1 ha with ha | ha
  · exact hbefore a ha
  · have hle : priorityKey side o ≤ priorityKey side a := by
      rcases List.mem_cons.1 ha with rfl | ha
      · exact le_refl _
      · exact (List.pairwise_cons.1 (List.pairwise_append.1 hsorted).2.1).1 a ha
    exact absurd hlt (not_lt.2 hle)

end IsFirst

theorem find?_eq_some_iff_isFirst {p : Order → Bool} :
    orders.find? p = some o ↔ IsFirst (fun o => p o = true) orders o := by
  rw [List.find?_eq_some_iff_append]
  constructor
  · rintro ⟨ho, before, after, rfl, hbefore⟩
    exact ⟨before, after, rfl, ho, fun x hx => by simpa using hbefore x hx⟩
  · rintro ⟨before, after, rfl, ho, hbefore⟩
    exact ⟨ho, before, after, rfl, fun x hx => by simpa using hbefore x hx⟩

theorem priorityCmp_eq_lt_iff :
    priorityCmp side a b = .lt ↔ priorityKey side a < priorityKey side b := by
  -- The comparison the other way round is the same one with the sides swapped.
  have hswap : priorityCmp side b a = (priorityCmp side a b).swap := by
    unfold priorityCmp Order.cmpTime Decimal.cmp
    cases side <;> simp only [Ordering.swap_then, Std.OrientedOrd.eq_swap.symm]
  rw [← not_le, ← priorityLe_iff, priorityLe, hswap]
  cases priorityCmp side a b <;> simp

/-! ### The search -/

/-- The pair that a buy finds among some sells. -/
def bestFor (allowSelfTrade : Bool) (sells : List Order) (buy : Order) : Option MatchCandidate :=
  if buy.isResting then (firstSellFor allowSelfTrade buy sells).map (.between buy) else none

/-- The search of two sides passes by each buy that finds no sell. -/
theorem bestMatch_eq_findSome? : bestMatch allowSelfTrade buys sells =
    buys.findSome? (bestFor allowSelfTrade sells) := by
  rw [bestMatch]
  induction buys with
  | nil => rfl
  | cons buy buys ih =>
    by_cases hrest : buy.isResting = true
    · rw [List.filter_cons_of_pos hrest, List.findSome?_cons, List.findSome?_cons, ih, bestFor,
        if_pos hrest]
    · rw [List.filter_cons_of_neg hrest, ih, List.findSome?_cons, bestFor, if_neg hrest]

theorem canTrade_iff : CanTrade allowSelfTrade buy sell ↔
    buy.isResting = true ∧ sell.isResting = true ∧ mayTrade allowSelfTrade buy sell = true := by
  rw [mayTrade, Bool.and_eq_true, crosses, decide_eq_true_eq, ownersMayTrade_iff]
  constructor
  · rintro ⟨hbuy, hsell, hcross, howners⟩
    exact ⟨hbuy, hsell, hcross, howners⟩
  · rintro ⟨hbuy, hsell, hcross, howners⟩
    exact ⟨hbuy, hsell, hcross, howners⟩

section Search

variable (hsells : sells.Pairwise fun a b => priorityKey .sell a ≤ priorityKey .sell b)

include hsells

/-- A buy finds the first sell that it can trade with. -/
theorem bestFor_eq_some_iff : bestFor allowSelfTrade sells buy = some c ↔
    ∃ sell, IsFirst (CanTrade allowSelfTrade buy) sells sell ∧ c = .between buy sell := by
  by_cases hrest : buy.isResting = true
  · have hpred : (fun a => decide (a.isResting = true ∧ mayTrade allowSelfTrade buy a = true) =
        true) = CanTrade allowSelfTrade buy := by
      funext a
      rw [decide_eq_true_eq, canTrade_iff, eq_true hrest, true_and]
    rw [bestFor, if_pos hrest, Option.map_eq_some_iff, firstSellFor_eq hsells, List.find?_filter]
    refine exists_congr fun sell => and_congr ?_ eq_comm
    rw [find?_eq_some_iff_isFirst, hpred]
  · rw [bestFor, if_neg hrest]
    refine iff_of_false (fun h => (by cases h)) ?_
    rintro ⟨sell, ⟨before, after, -, hcan, -⟩, -⟩
    exact hrest hcan.buy_resting

theorem bestFor_eq_none_iff : bestFor allowSelfTrade sells buy = none ↔
    ∀ sell ∈ sells, ¬CanTrade allowSelfTrade buy sell := by
  by_cases hrest : buy.isResting = true
  · rw [bestFor, if_pos hrest, Option.map_eq_none_iff, firstSellFor_eq hsells, List.find?_filter,
      List.find?_eq_none]
    simp only [decide_eq_true_eq, canTrade_iff, eq_true hrest, true_and]
  · rw [bestFor, if_neg hrest]
    exact iff_of_true rfl fun sell _ hcan => hrest hcan.buy_resting

theorem bestMatch_eq_none_iff : bestMatch allowSelfTrade buys sells = none ↔
    ∀ buy ∈ buys, ∀ sell ∈ sells, ¬CanTrade allowSelfTrade buy sell := by
  rw [bestMatch_eq_findSome?, List.findSome?_eq_none_iff]
  exact forall₂_congr fun buy _ => bestFor_eq_none_iff hsells

/-- The first buy that finds a sell decides. -/
theorem bestMatch_eq_some_iff : bestMatch allowSelfTrade buys sells = some c ↔
    ∃ buy sell, IsFirst (fun b => ∃ a ∈ sells, CanTrade allowSelfTrade b a) buys buy ∧
      IsFirst (CanTrade allowSelfTrade buy) sells sell ∧ c = .between buy sell := by
  have hnone : ∀ b, bestFor allowSelfTrade sells b = none ↔
      ¬∃ a ∈ sells, CanTrade allowSelfTrade b a := by
    intro b
    rw [bestFor_eq_none_iff hsells]
    push Not
    rfl
  rw [bestMatch_eq_findSome?, List.findSome?_eq_some_iff]
  constructor
  · rintro ⟨before, buy, after, rfl, hfound, hbefore⟩
    obtain ⟨sell, hsell, rfl⟩ := (bestFor_eq_some_iff hsells).1 hfound
    refine ⟨buy, sell, ⟨before, after, rfl, ⟨sell, hsell.mem, hsell.holds⟩, ?_⟩, hsell, rfl⟩
    exact fun b hb => (hnone b).1 (hbefore b hb)
  · rintro ⟨buy, sell, ⟨before, after, rfl, -, hbefore⟩, hsell, rfl⟩
    refine ⟨before, buy, after, rfl, (bestFor_eq_some_iff hsells).2 ⟨sell, hsell, rfl⟩, ?_⟩
    exact fun b hb => (hnone b).2 (hbefore b hb)

end Search

/-! ### The candidate -/

theorem timeLe_iff_not_cameBefore : Order.timeLe a b = true ↔ ¬b.CameBefore a := by
  rw [timeLe_iff, Order.CameBefore, UInt64.lt_iff_toNat_lt]
  omega

/-- A pair takes all that remains of one order, and no more than remains of the other. -/
theorem pairs_between (buy sell : Order) : (MatchCandidate.between buy sell).Pairs buy sell := by
  have hquantity : (MatchCandidate.between buy sell).quantity =
      Decimal.min buy.remaining sell.remaining := rfl
  refine ⟨rfl, rfl, ?_, ?_, ?_, ?_⟩
  · rw [hquantity, Decimal.min]
    split
    · exact Or.inr rfl
    · exact Or.inl rfl
  · rw [hquantity, Decimal.le_iff, Decimal.le_iff, Decimal.toRat_min]
    exact ⟨min_le_left _ _, min_le_right _ _⟩
  · intro hbefore
    have htime : ¬Order.timeLe buy sell = true := fun h => timeLe_iff_not_cameBefore.1 h hbefore
    simp [MatchCandidate.between, MatchCandidate.makerAndTaker, htime]
  · intro hbefore
    have htime : Order.timeLe buy sell = true := timeLe_iff_not_cameBefore.2 hbefore
    simp [MatchCandidate.between, MatchCandidate.makerAndTaker, htime]

/-! ### Sides in priority order -/

/-- The search of two sides in priority order finds the best pair of them, and nothing only where no
two orders can trade. -/
theorem bestMatch_sortByPriority (allowSelfTrade : Bool) (bids asks : List Order) :
    (bestMatch allowSelfTrade (sortByPriority .buy bids) (sortByPriority .sell asks) = none ↔
      ∀ buy ∈ bids, ∀ sell ∈ asks, ¬CanTrade allowSelfTrade buy sell) ∧
    (∀ c, bestMatch allowSelfTrade (sortByPriority .buy bids) (sortByPriority .sell asks) =
      some c ↔ ∃ buy sell, IsBestPair allowSelfTrade (sortByPriority .buy bids)
        (sortByPriority .sell asks) buy sell ∧ c = .between buy sell) ∧
    ∀ buy sell, (MatchCandidate.between buy sell).Pairs buy sell := by
  have hbuys := pairwise_sortByPriority .buy bids
  have hsells := pairwise_sortByPriority .sell asks
  refine ⟨?_, fun c => ?_, pairs_between⟩
  · rw [bestMatch_eq_none_iff hsells]
    simp only [sortByPriority, List.mem_mergeSort]
  · rw [bestMatch_eq_some_iff hsells]
    constructor
    · rintro ⟨buy, sell, hbuy, hsell, rfl⟩
      refine ⟨buy, sell, ⟨hbuy, hsell, fun b hb hlt a ha hcan => ?_, fun a ha hlt => ?_⟩, rfl⟩
      · exact hbuy.not_of_lt hbuys hb (priorityCmp_eq_lt_iff.1 hlt) ⟨a, ha, hcan⟩
      · exact hsell.not_of_lt hsells ha (priorityCmp_eq_lt_iff.1 hlt)
    · rintro ⟨buy, sell, hbest, rfl⟩
      exact ⟨buy, sell, hbest.buy_first, hbest.sell_first, rfl⟩

end Bourse
