import Bourse.Proofs.Matching.Agreement
import Bourse.Proofs.Matching.BestMatch
import Bourse.Proofs.Store.Commit
import Bourse.Proofs.Store.Numbered

/-!
# Views of the book

What the book shows of a store is all that rests in it: each side of each market in strict order,
the markets in which there is anything, and the best prices. Where a store has its orders does not
matter: orders of the same price and time still have different numbers of insertion, so there is one
way only to list them.
-/

namespace Bourse

/-- On one side of a market, `a` goes before `b`: at a better price, or earlier at the same one. -/
def Order.GoesBefore (side : Side) (a b : Order) : Prop :=
  match side with
  | .buy => b.price < a.price ∨ a.price.SameValue b.price ∧ a.CameBefore b
  | .sell => a.price < b.price ∨ a.price.SameValue b.price ∧ a.CameBefore b

/-- A list of the orders that rest on one side of a market, each once, the best one first. -/
structure Store.IsView (s : Store) (market : Market) (side : Side) (view : List Order) : Prop where
  nodup : view.Nodup
  mem_iff : ∀ o, o ∈ view ↔ o ∈ s.orders.entries ∧
    (o.status = .confirmed ∨ o.status = .partially) ∧ 0 < o.remaining.toRat ∧ o.side = side ∧
      o.market = market
  sorted : view.Pairwise (Order.GoesBefore side)

/-- The best prices of a market with these orders. -/
structure BestBidAsk.IsBest (best : BestBidAsk) (market : Market) (bids asks : List Order) :
    Prop where
  symbol_eq : best.symbol = market.symbol
  tradingType_eq : best.tradingType = market.tradingType
  bid_eq_none_iff : best.bestBid = none ↔ bids = []
  bid_max : ∀ price, best.bestBid = some price →
    (∃ o ∈ bids, o.price = price) ∧ ∀ o ∈ bids, o.price ≤ price
  ask_eq_none_iff : best.bestAsk = none ↔ asks = []
  ask_min : ∀ price, best.bestAsk = some price →
    (∃ o ∈ asks, o.price = price) ∧ ∀ o ∈ asks, price ≤ o.price

/-- Whoever looks at a store comes to this result, wherever it has its orders, and leaves it as it
is. -/
def Store.Shows {α : Type} (s : Store) (t : Task StoreError α) (a : α) : Prop :=
  ∀ s' : Store, s'.orders.entries.Perm s.orders.entries →
    ∀ (stamps : ℕ → Stamp) (answers : LedgerAnswers) (drawn asked : ℕ),
      ∃ y, Task.Ends (Desk.handler stamps answers) t ⟨s', drawn, asked⟩ (.ok a) y ∧ y.store = s'

variable {s s' : Store} {market : Market} {side : Side} {a b : Order} {bids asks : List Order}

/-! ### One side -/

theorem goesBefore_iff : a.GoesBefore side b ↔ priorityKey side a < priorityKey side b := by
  have htime : toLex (a.createdAt.rank, a.sequence.toNat) <
      toLex (b.createdAt.rank, b.sequence.toNat) ↔ a.CameBefore b := by
    rw [Prod.Lex.toLex_lt_toLex, Order.CameBefore, UInt64.lt_iff_toNat_lt]
  unfold Order.GoesBefore priorityKey
  cases side with
  | buy =>
    dsimp only
    rw [Prod.Lex.toLex_lt_toLex, htime, neg_lt_neg_iff, neg_inj, Decimal.lt_iff,
      Decimal.sameValue_iff]
  | sell =>
    dsimp only
    rw [Prod.Lex.toLex_lt_toLex, htime, Decimal.lt_iff, Decimal.sameValue_iff]

namespace Store

/-- Two stored orders do not have the same priority. -/
theorem Numbered.eq_of_priorityKey (h : s.Numbered) (ha : a ∈ s.orders.entries)
    (hb : b ∈ s.orders.entries) (hkey : priorityKey side a = priorityKey side b) : a = b :=
  h.eq_of_sequence ha hb (sequence_eq_of_priorityKey hkey)

theorem Numbered.isView (h : s.Numbered) (market : Market) (side : Side) :
    s.IsView market side (s.sideOf market side) := by
  have hnodup : (s.sideOf market side).Nodup :=
    (List.mergeSort_perm _ _).nodup_iff.2 ((s.orders.nodup_entries.filter _).filter _)
  refine ⟨hnodup, fun o => ?_, ?_⟩
  · rw [mem_sideOf_iff, Order.isResting, Bool.and_eq_true, OrderStatus.isResting_iff,
      Decimal.isPos_iff, and_assoc]
  · refine ((pairwise_sideOf s market side).and hnodup).imp_of_mem fun ha hb hab => ?_
    refine goesBefore_iff.2 (lt_of_le_of_ne hab.1 fun hkey => hab.2 ?_)
    exact h.eq_of_priorityKey (mem_sideOf_iff.1 ha).1 (mem_sideOf_iff.1 hb).1 hkey

/-- Sorted by priority, the same orders are the same list. -/
theorem Numbered.sideOf_eq (h : s.Numbered) (hperm : s'.orders.entries.Perm s.orders.entries)
    (market : Market) (side : Side) : s'.sideOf market side = s.sideOf market side := by
  refine List.Perm.eq_of_pairwise (fun a b ha hb hab hba => ?_) (pairwise_sideOf s' market side)
    (pairwise_sideOf s market side) ?_
  · exact h.eq_of_priorityKey (hperm.mem_iff.1 (mem_sideOf_iff.1 ha).1) (mem_sideOf_iff.1 hb).1
      (le_antisymm hab hba)
  · exact (List.mergeSort_perm _ _).trans
      (((hperm.filter _).filter _).trans (List.mergeSort_perm _ _).symm)

theorem Numbered.shows_sideOf (h : s.Numbered) (market : Market) (side : Side) :
    s.Shows (Engine.sideOf market side) (s.sideOf market side) := by
  intro s' hperm stamps answers drawn asked
  have hends := Desk.ends_sideOf stamps answers ⟨s', drawn, asked⟩ market side
  rwa [h.sideOf_eq hperm] at hends

/-! ### The markets -/

theorem activeMarkets_eq_of_perm (hperm : s'.orders.entries.Perm s.orders.entries) :
    s'.activeMarkets = s.activeMarkets :=
  Market.sort_eq_sort (perm_eraseDups ((hperm.filter _).map _))

theorem shows_activeMarkets (s : Store) :
    s.Shows (Task.store .activeMarkets) s.activeMarkets := by
  intro s' hperm stamps answers drawn asked
  refine ⟨⟨s', drawn + 1, asked⟩, ?_, rfl⟩
  rw [← activeMarkets_eq_of_perm hperm]
  rfl

/-- Each market is listed once, in its place. -/
theorem pairwise_activeMarkets (s : Store) :
    s.activeMarkets.Pairwise fun a b => a.key < b.key := by
  have hnodup : s.activeMarkets.Nodup :=
    (List.mergeSort_perm _ _).nodup_iff.2 (nodup_eraseDups _)
  refine ((pairwise_mergeSort_key Market.sortsBy_le _).and hnodup).imp fun hab => ?_
  exact lt_of_le_of_ne hab.1 fun hkey => hab.2 (Market.eq_of_key hkey)

theorem mem_activeMarkets_iff :
    market ∈ s.activeMarkets ↔ ∃ side, s.sideOf market side ≠ [] := by
  rw [activeMarkets, Market.sort, List.mem_mergeSort, List.mem_eraseDups, List.mem_map]
  constructor
  · rintro ⟨o, ho, rfl⟩
    obtain ⟨hmem, hrest⟩ := List.mem_filter.1 ho
    exact ⟨o.side, List.ne_nil_of_mem (mem_sideOf_iff.2 ⟨hmem, hrest, rfl, rfl⟩)⟩
  · rintro ⟨side, hside⟩
    obtain ⟨o, ho⟩ := List.exists_mem_of_ne_nil _ hside
    obtain ⟨hmem, hrest, -, hmarket⟩ := mem_sideOf_iff.1 ho
    exact ⟨o, List.mem_filter.2 ⟨hmem, hrest⟩, hmarket⟩

end Store

/-! ### The best prices -/

/-- Prices that are not negative have a spread. -/
theorem exists_ofSides (market : Market) (hbids : ∀ bid ∈ bids, 0 ≤ bid.price.toRat)
    (hasks : ∀ ask ∈ asks, 0 ≤ ask.price.toRat) :
    ∃ best, BestBidAsk.ofSides market bids asks = .ok best := by
  cases bids with
  | nil => exact ⟨_, rfl⟩
  | cons bid bids =>
    cases asks with
    | nil => exact ⟨_, rfl⟩
    | cons ask asks =>
      obtain ⟨spread, hspread⟩ := Decimal.exists_sub_of_nonneg (hasks ask List.mem_cons_self)
        (hbids bid List.mem_cons_self)
      refine ⟨⟨market.symbol, market.tradingType, some bid.price, some ask.price, some spread⟩, ?_⟩
      simp only [BestBidAsk.ofSides, List.head?_cons, Option.map_some, hspread]
      rfl

/-- The best prices are those of the first orders of the two sides. -/
theorem ofSides_eq_ok {best : BestBidAsk} (h : BestBidAsk.ofSides market bids asks = .ok best) :
    ∃ spread, best = ⟨market.symbol, market.tradingType, bids.head?.map Order.price,
      asks.head?.map Order.price, spread⟩ := by
  unfold BestBidAsk.ofSides at h
  dsimp only at h
  split at h
  all_goals
    obtain ⟨spread, -, hbest⟩ := bind_eq_ok_iff.1 h
    exact ⟨spread, pure_eq_ok_iff.1 hbest⟩

/-- In sorted orders, the price of the first one is the best of all. -/
theorem best_of_head? (le : Decimal → Decimal → Prop) {view : List Order} {price : Decimal}
    (hsorted : view.Pairwise fun a b => le a.price b.price) (hrefl : ∀ price, le price price)
    (h : view.head?.map Order.price = some price) :
    (∃ o ∈ view, o.price = price) ∧ ∀ o ∈ view, le price o.price := by
  cases view with
  | nil => cases h
  | cons o rest =>
    obtain rfl := Option.some.inj h
    refine ⟨⟨o, List.mem_cons_self, rfl⟩, List.forall_mem_cons.2 ⟨hrefl _, ?_⟩⟩
    exact (List.pairwise_cons.1 hsorted).1

/-- Of two sides in order, the first orders have the best prices. -/
theorem isBest_of_ofSides {best : BestBidAsk} (h : BestBidAsk.ofSides market bids asks = .ok best)
    (hbids : bids.Pairwise (Order.GoesBefore .buy))
    (hasks : asks.Pairwise (Order.GoesBefore .sell)) : best.IsBest market bids asks := by
  obtain ⟨spread, rfl⟩ := ofSides_eq_ok h
  have hfalling : bids.Pairwise fun a b => b.price ≤ a.price := by
    refine hbids.imp fun hab => Decimal.le_iff.2 ?_
    rcases hab with hlt | ⟨heq, -⟩
    · exact (Decimal.lt_iff.1 hlt).le
    · exact (Decimal.sameValue_iff.1 heq).ge
  have hrising : asks.Pairwise fun a b => a.price ≤ b.price := by
    refine hasks.imp fun hab => Decimal.le_iff.2 ?_
    rcases hab with hlt | ⟨heq, -⟩
    · exact (Decimal.lt_iff.1 hlt).le
    · exact (Decimal.sameValue_iff.1 heq).le
  have hrefl : ∀ price : Decimal, price ≤ price := fun _ => Decimal.le_iff.2 (le_refl _)
  refine ⟨rfl, rfl, ?_, fun price hprice => ?_, ?_, fun price hprice => ?_⟩
  · rw [Option.map_eq_none_iff, List.head?_eq_none_iff]
  · exact best_of_head? (fun p q => q ≤ p) hfalling hrefl hprice
  · rw [Option.map_eq_none_iff, List.head?_eq_none_iff]
  · exact best_of_head? (· ≤ ·) hrising hrefl hprice

/-- The best prices are taken from the two sides as they are. -/
theorem Desk.ends_bestBidAsk (stamps : ℕ → Stamp) (answers : LedgerAnswers) {x : Desk}
    {best : BestBidAsk} (hbest : BestBidAsk.ofSides market (x.store.sideOf market .buy)
      (x.store.sideOf market .sell) = .ok best) :
    ∃ y, Task.Ends (handler stamps answers) (Engine.bestBidAsk market) x (.ok best) y ∧
      y.store = x.store := by
  obtain ⟨y, hbids, hy⟩ := ends_sideOf stamps answers x market .buy
  obtain ⟨z, hasks, hz⟩ := ends_sideOf stamps answers y market .sell
  rw [hy] at hasks
  refine ⟨z, hbids.bind (hasks.bind ?_), hz.trans hy⟩
  show (_, _) = _
  rw [hbest]
  rfl

theorem Store.Regular.exists_bestBidAsk (h : s.Regular) (market : Market) :
    ∃ best, BestBidAsk.ofSides market (s.sideOf market .buy) (s.sideOf market .sell) =
      .ok best := by
  have hpos : ∀ side, ∀ o ∈ s.sideOf market side, 0 ≤ o.price.toRat := fun side o ho =>
    (h o (mem_sideOf_iff.1 ho).1).price_pos.le
  exact exists_ofSides market (hpos .buy) (hpos .sell)

theorem Store.Numbered.shows_bestBidAsk (h : s.Numbered) (hregular : s.Regular) (market : Market) :
    ∃ best, s.Shows (Engine.bestBidAsk market) best ∧
      best.IsBest market (s.sideOf market .buy) (s.sideOf market .sell) := by
  obtain ⟨best, hbest⟩ := hregular.exists_bestBidAsk market
  refine ⟨best, fun s' hperm stamps answers drawn asked => ?_,
    isBest_of_ofSides hbest (h.isView market .buy).sorted (h.isView market .sell).sorted⟩
  rw [← h.sideOf_eq hperm, ← h.sideOf_eq hperm] at hbest
  exact Desk.ends_bestBidAsk (x := ⟨s', drawn, asked⟩) stamps answers hbest

/-- A store that was used and restarted in any way, with created orders and fewer than `2 ^ 64`
insertions. Its orders have distinct numbers, from one up to the last that was given. Wherever it
has them, each side of a market shows all that rests there, each order once and in strict order; the
active markets are those with a side that is not empty, each once and in ascending order; and the
best prices of a market are the highest bid and the lowest ask, if there is any. -/
theorem Store.views_exact {acts : List StoreAct} (hcreated : ∀ a ∈ acts, a.InsertsCreated)
    (hcount : acts.countP StoreAct.isInsertion < 2 ^ 64) :
    let s := Store.empty.afterActs acts
    s.Numbered ∧
    (∀ market side, s.Shows (Engine.sideOf market side) (s.sideOf market side) ∧
      s.IsView market side (s.sideOf market side)) ∧
    (∃ markets : List Market, s.Shows (Task.store .activeMarkets) markets ∧
      (markets.Pairwise fun a b => a.key < b.key) ∧
      ∀ market, market ∈ markets ↔ ∃ side, s.sideOf market side ≠ []) ∧
    ∀ market, ∃ best, s.Shows (Engine.bestBidAsk market) best ∧
      best.IsBest market (s.sideOf market .buy) (s.sideOf market .sell) := by
  intro s
  have hnumbered : s.Numbered := numbered_afterActs hcount
  have hregular : s.Regular := regular_afterActs hcreated
  refine ⟨hnumbered, fun market side => ⟨hnumbered.shows_sideOf market side,
    hnumbered.isView market side⟩, ?_, hnumbered.shows_bestBidAsk hregular⟩
  exact ⟨s.activeMarkets, s.shows_activeMarkets, s.pairwise_activeMarkets,
    fun market => mem_activeMarkets_iff⟩

/-- Two bids and an ask, with a restart after the first bid. -/
def Store.restartedBook : List StoreAct :=
  let call (c : StoreCall) : StoreAct := .call ⟨.ofNat 4, .epoch⟩ c
  [call (.insertOrder (.gold 1 .buy (.ofWord 5) (.ofWord 95) 1)), .restart,
    call (.insertOrder (.gold 2 .buy (.ofWord 5) (.ofWord 97) 2)),
    call (.insertOrder (.gold 3 .sell (.ofWord 5) (.ofWord 99) 3)),
    call (.transitionOrder ⟨.ofNat 1⟩ .confirm), call (.transitionOrder ⟨.ofNat 2⟩ .confirm),
    call (.transitionOrder ⟨.ofNat 3⟩ .confirm)]

theorem Store.views_exact_restartedBook :
    ((∀ a ∈ restartedBook, a.InsertsCreated) ∧
      restartedBook.countP StoreAct.isInsertion < 2 ^ 64) ∧
    let s := Store.empty.afterActs restartedBook
    s.orders.entries.map (fun o => (o.sequence, o.isResting)) = [(1, true), (2, true), (3, true)] ∧
    s.Numbered ∧
    (∀ market side, s.Shows (Engine.sideOf market side) (s.sideOf market side) ∧
      s.IsView market side (s.sideOf market side)) ∧
    (∃ markets : List Market, s.Shows (Task.store .activeMarkets) markets ∧
      (markets.Pairwise fun a b => a.key < b.key) ∧
      ∀ market, market ∈ markets ↔ ∃ side, s.sideOf market side ≠ []) ∧
    ∀ market, ∃ best, s.Shows (Engine.bestBidAsk market) best ∧
      best.IsBest market (s.sideOf market .buy) (s.sideOf market .sell) := by
  have hcreated : ∀ a ∈ restartedBook, a.InsertsCreated := by
    simp only [restartedBook, List.forall_mem_cons]
    exact ⟨Order.create_gold 1 .buy 1 (by decide) (by decide) ⟨_, rfl⟩, trivial,
      Order.create_gold 2 .buy 2 (by decide) (by decide) ⟨_, rfl⟩,
      Order.create_gold 3 .sell 3 (by decide) (by decide) ⟨_, rfl⟩, trivial, trivial, trivial,
      by simp⟩
  have hcount : restartedBook.countP StoreAct.isInsertion < 2 ^ 64 := by decide
  exact ⟨⟨hcreated, hcount⟩, by decide +kernel, Store.views_exact hcreated hcount⟩

end Bourse
