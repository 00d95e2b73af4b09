import Bourse.Proofs.Matching.Agreement
import Bourse.Proofs.Matching.Quiet

/-!
# Runs over a market

Every match of a run over a market completes one of its two orders, so there are fewer matches than
orders in the book, and the last one leaves no pair that may trade. The pair that is chosen can
always be matched, whatever state the store is in and whatever the ledger answers: a run of one who
alone uses the store stops when nothing crosses, or at the limit of its matches.
-/

namespace Bourse

namespace Store

/-- One match, which completes at least one of its two orders. -/
inductive CompletingMatch (fees : FeeSchedule) (s : Store) : Trade → Store → Prop where
  | intro {s' : Store} {stamp : Stamp} {makerId takerId : OrderId} {quantity : Decimal}
    {maker taker : Order} {m : Match}
    (matches' : s.Matches stamp makerId takerId quantity fees maker taker m)
    (completes : m.maker.status = .completed ∨ m.taker.status = .completed)
    (orders_eq : s'.orders = (s.orders.put m.maker).put m.taker)
    (trades_eq : s'.trades = s.trades ++ [m.trade]) :
    CompletingMatch fees s m.trade s'

/-- Trades take a store to another one, match by match. -/
inductive CompletingMatches (fees : FeeSchedule) : Store → List Trade → Store → Prop where
  | none (s : Store) : CompletingMatches fees s [] s
  | next {s s₁ s' : Store} {t : Trade} {trades : List Trade}
    (first : s.CompletingMatch fees t s₁) (rest : CompletingMatches fees s₁ trades s') :
    CompletingMatches fees s (t :: trades) s'

/-- At least one of the two orders of a trade is completed. -/
def Completes (s : Store) (t : Trade) : Prop :=
  ∃ o ∈ s.orders.entries, (o.id = t.makerOrderId ∨ o.id = t.takerOrderId) ∧ o.status = .completed

variable {s s' : Store} {fees : FeeSchedule} {t t' : Trade} {trades : List Trade} {market : Market}
  {allowSelfTrade : Bool} {c : MatchCandidate}

/-! ### Matches one after the other -/

theorem CompletingMatch.completes (h : s.CompletingMatch fees t s') : s'.Completes t := by
  obtain ⟨hm, hcompletes, horders, -⟩ := h
  rw [Completes, horders]
  rcases hcompletes with hdone | hdone
  · refine ⟨_, hm.mem_orders_iff.2 (Or.inl rfl), Or.inl ?_, hdone⟩
    rw [hm.filled_maker_id, hm.trade_maker]
  · refine ⟨_, hm.mem_orders_iff.2 (Or.inr (Or.inl rfl)), Or.inr ?_, hdone⟩
    rw [hm.filled_taker_id, hm.trade_taker]

/-- No match touches an order that is completed. -/
theorem CompletingMatch.keeps (h : s.CompletingMatch fees t s') (ht : s.Completes t') :
    s'.Completes t' := by
  obtain ⟨hm, -, horders, -⟩ := h
  obtain ⟨o, ho, hid, hdone⟩ := ht
  rw [Completes, horders]
  obtain ⟨p, hp, rfl | ⟨role, hfill⟩⟩ := hm.exists_after ho
  · exact ⟨p, hp, hid, hdone⟩
  · have hresting := Order.isResting_of_fill hfill
    rw [Order.isResting_of_completed hdone] at hresting
    cases hresting

theorem CompletingMatches.keeps (h : CompletingMatches fees s trades s') (ht : s.Completes t) :
    s'.Completes t := by
  induction h with
  | none s => exact ht
  | next hfirst _ ih => exact ih (hfirst.keeps ht)

/-- At the end of a run, each of its trades has a completed order. -/
theorem CompletingMatches.completes (h : CompletingMatches fees s trades s') :
    ∀ t ∈ trades, s'.Completes t := by
  induction h with
  | none s => exact fun t ht => absurd ht List.not_mem_nil
  | next hfirst hrest ih => exact List.forall_mem_cons.2 ⟨hrest.keeps hfirst.completes, ih⟩

/-- The trades are recorded one after the other. -/
theorem CompletingMatches.trades_eq (h : CompletingMatches fees s trades s') :
    s'.trades = s.trades ++ trades := by
  induction h with
  | none s => rw [List.append_nil]
  | next hfirst _ ih =>
    obtain ⟨-, -, -, htrades⟩ := hfirst
    rw [ih, htrades, List.append_assoc, List.singleton_append]

/-! ### How many orders of a market are in the book -/

/-- How many orders of a market are in the book, on either side. -/
def restingIn (s : Store) (market : Market) : ℕ :=
  (s.restingOrders market .buy).length + (s.restingOrders market .sell).length

theorem restingIn_eq_sum (s : Store) (market : Market) : s.restingIn market =
    (s.orders.entries.map fun o => (o.isResting && decide (o.market = market)).toNat).sum := by
  unfold restingIn restingOrders
  induction s.orders.entries with
  | nil => rfl
  | cons o orders ih =>
    rw [List.map_cons, List.sum_cons, ← ih, List.filter_cons, List.filter_cons]
    cases o.isResting <;> cases o.side <;> by_cases hmarket : o.market = market <;>
      simp [hmarket] <;> omega

/-- A market that has a pair has a buy and a sell in the book. -/
theorem two_le_restingIn (h : s.bestCandidate allowSelfTrade market = some c) :
    2 ≤ s.restingIn market := by
  obtain ⟨buy, hbuy, sell, hsell, -, -⟩ := pair_of_bestCandidate h
  have hmem : ∀ {side : Side} {o : Order}, o ∈ s.sideOf market side →
      1 ≤ (s.restingOrders market side).length := by
    intro side o ho
    rw [sideOf, sortByPriority, List.mem_mergeSort] at ho
    exact List.length_pos_of_mem (List.mem_filter.1 ho).1
  have hbuys := hmem hbuy
  have hsells := hmem hsell
  unfold restingIn
  omega

section Matched

variable {stamp : Stamp} {makerId takerId : OrderId} {quantity : Decimal} {maker taker : Order}
  {m : Match}

/-- A match within a market that completes an order leaves fewer of them in the book. -/
theorem Matches.restingIn_lt (hm : s.Matches stamp makerId takerId quantity fees maker taker m)
    (hcompletes : m.maker.status = .completed ∨ m.taker.status = .completed)
    (horders : s'.orders = (s.orders.put m.maker).put m.taker) (hmarket : maker.market = market) :
    s'.restingIn market < s.restingIn market := by
  have htaker_market : taker.market = market := hm.tradable.sameMarket.symm.trans hmarket
  have hmaker' := (Order.sameTerms_of_fill hm.maker_filled).market_eq.trans hmarket
  have htaker' := (Order.sameTerms_of_fill hm.taker_filled).market_eq.trans htaker_market
  rw [restingIn_eq_sum, restingIn_eq_sum]
  exact hm.sum_resting_lt horders (fun o => decide (o.market = market)) hcompletes
    ⟨decide_eq_true hmarket, decide_eq_true hmaker'⟩
    ⟨decide_eq_true htaker_market, decide_eq_true htaker'⟩

end Matched

end Store

/-! ### Runs -/

namespace Desk

variable {x : Desk} {e : Engine} {ε : Type}

/-- A run from any store makes completing matches, fewer than there are orders in the book, and
stops only where there is no pair or at the limit. With a limit of as many matches as orders, it
stops where there is no pair. -/
theorem ends_matchRepeatedly (stamps : ℕ → Stamp) (answers : LedgerAnswers)
    (hfees : e.fees.Fractions) (market : Market) (n : ℕ) (hx : x.store.Regular) :
    ∃ trades stop y, Task.Ends (handler stamps answers) (e.matchRepeatedly market n : Task ε _) x
        (.ok (trades, stop)) y ∧
      trades.length ≤ x.store.restingIn market - 1 ∧
      x.store.CompletingMatches e.fees trades y.store ∧
      stop ≠ .conflict ∧ stop ≠ .storeError ∧
      (max (x.store.restingIn market) 1 ≤ n →
        stop = .exhausted ∧ y.store.bestCandidate e.allowSelfTrade market = none) := by
  induction n generalizing x with
  | zero =>
    refine ⟨[], .iterationCap, x, Task.Ends.pure, Nat.zero_le _, .none _, fun h => (by cases h),
      fun h => (by cases h), fun hlimit => ?_⟩
    exact absurd ((le_max_right _ _).trans hlimit) (by decide)
  | succ n ih =>
    obtain ⟨y, hbest, hy⟩ := ends_bestCandidate stamps answers x e market
    cases hc : x.store.bestCandidate e.allowSelfTrade market with
    | none =>
      rw [hc] at hbest
      rw [← hy] at hc ⊢
      exact ⟨[], .exhausted, y, hbest.attempt.bind Task.Ends.pure, Nat.zero_le _, .none _,
        fun h => (by cases h), fun h => (by cases h), fun _ => ⟨rfl, hc⟩⟩
    | some c =>
      rw [hc] at hbest
      rw [← hy] at hx hc ⊢
      have htwo := Store.two_le_restingIn hc
      obtain ⟨buy, hbuy, sell, hsell, hadmissible, rfl⟩ := Store.pair_of_bestCandidate hc
      obtain ⟨hbuy_mem, -, -, hbuy_market⟩ := Store.mem_sideOf_iff.1 hbuy
      obtain ⟨maker, taker, hne, hmaker, htaker, htradable, hquantity, hmarket⟩ :=
        Store.tradable_of_admissible hbuy_mem (Store.mem_sideOf_iff.1 hsell).1 hadmissible
      obtain ⟨m, z, hm, hexecute, horders, htrades⟩ :=
        ends_execute stamps answers hfees hx hne hmaker htaker htradable
      have hcompletes := hm.completes hquantity
      have hfewer := hm.restingIn_lt hcompletes horders (hmarket.trans hbuy_market)
      have hz : z.store.Regular := by
        rw [Store.Regular, horders]
        exact hm.regular hx
      obtain ⟨trades, stop, w, hrest, hlength, hmatches, hconflict, herror, hlimit⟩ := ih hz
      refine ⟨m.trade :: trades, stop, w,
        hbest.attempt.bind (hexecute.attempt.bind (hrest.bind Task.Ends.pure)), ?_,
        .next ⟨hm, hcompletes, horders, htrades⟩ hmatches, hconflict, herror, fun hn => hlimit ?_⟩
      · rw [List.length_cons]
        omega
      · omega

end Desk

/-- A run over a market of a store that is used by nobody else, whatever the ledger answers. Where
`b` buys and `s` sells of the market are in the book, it makes fewer than `b + s` trades, and each
of them completes an order. Every pair that it chooses is matched. If it may make as many matches
as there are orders, it leaves no pair that may trade. -/
theorem Engine.matchMarket_exhausts (e : Engine) (hfees : e.fees.Fractions)
    {calls : List (Stamp × StoreCall)} (hcalls : ∀ c ∈ calls, Store.InsertsCreated c.2)
    (market : Market) (stamps : ℕ → Stamp) (answers : LedgerAnswers) :
    let x : Desk := ⟨Store.empty.afterCalls calls, 0, 0⟩
    let b := (x.store.restingOrders market .buy).length
    let s := (x.store.restingOrders market .sell).length
    ∃ run y, Task.Ends (Desk.handler stamps answers) (e.matchMarket market : Task Empty MarketRun) x
        (.ok run) y ∧
      run.trades.length ≤ b + s - 1 ∧
      x.store.CompletingMatches e.fees run.trades y.store ∧
      y.store.trades = x.store.trades ++ run.trades ∧
      (∀ t ∈ run.trades, y.store.Completes t) ∧
      run.stop ≠ .conflict ∧ run.stop ≠ .storeError ∧
      (max (b + s) 1 ≤ e.maxIterations.toNat →
        run.stop = .exhausted ∧
        ∀ buy ∈ y.store.orders.entries, ∀ sell ∈ y.store.orders.entries,
          Admissible e.allowSelfTrade buy sell → buy.market ≠ market) := by
  intro x b s
  obtain ⟨trades, stop, y, hends, hlength, hmatches, hconflict, herror, hlimit⟩ :=
    Desk.ends_matchRepeatedly (ε := Empty) stamps answers hfees market e.maxIterations.toNat
      (x := x) (Store.regular_afterCalls hcalls)
  refine ⟨⟨market, trades, stop⟩, y, hends.bind Task.Ends.pure, hlength, hmatches,
    hmatches.trades_eq, hmatches.completes, hconflict, herror, fun hn => ?_⟩
  obtain ⟨hstop, hnone⟩ := hlimit hn
  exact ⟨hstop, Store.bestCandidate_eq_none_iff.1 hnone⟩

theorem Engine.matchMarket_exhausts_twoResting :
    let e : Engine := ⟨.standard, .create 3 10, 2, false⟩
    let x : Desk := ⟨Store.empty.afterCalls twoResting, 0, 0⟩
    let market : Market := ⟨Order.goldSymbol, .spot⟩
    let stamps (n : ℕ) : Stamp := ⟨.ofNat (10 + n), .epoch⟩
    (e.fees.Fractions ∧ ∀ c ∈ twoResting, Store.InsertsCreated c.2) ∧
    (x.store.restingOrders market .buy).length = 1 ∧
    (x.store.restingOrders market .sell).length = 1 ∧
    ∃ run y, Task.Ends (Desk.handler stamps .down) (e.matchMarket market : Task Empty MarketRun) x
        (.ok run) y ∧
      run.trades.length = 1 ∧ x.store.CompletingMatches e.fees run.trades y.store ∧
      (∀ t ∈ run.trades, y.store.Completes t) ∧ run.stop = .exhausted ∧
      ∀ buy ∈ y.store.orders.entries, ∀ sell ∈ y.store.orders.entries,
        Admissible e.allowSelfTrade buy sell → buy.market ≠ market := by
  intro e x market stamps
  have hbuys : (x.store.restingOrders market .buy).length = 1 := by decide +kernel
  have hsells : (x.store.restingOrders market .sell).length = 1 := by decide +kernel
  obtain ⟨run, y, hends, -, hmatches, -, hcompletes, -, -, hlimit⟩ := Engine.matchMarket_exhausts e
    FeeSchedule.standard_fractions insertsCreated_twoResting market stamps .down
  have hlength : ((e.matchMarket market : Task Empty MarketRun).work.run
      (Desk.handler stamps .down) x).1.map (fun r => r.map fun run => run.trades.length) =
        .ok (.ok 1) := by
    decide +kernel
  have hone : run.trades.length = 1 := by
    rw [show (e.matchMarket market : Task Empty MarketRun).work.run _ x = _ from hends] at hlength
    exact Except.ok.inj (Except.ok.inj hlength)
  obtain ⟨hstop, hunpaired⟩ := hlimit (by rw [hbuys, hsells]; decide)
  exact ⟨⟨FeeSchedule.standard_fractions, insertsCreated_twoResting⟩, hbuys, hsells, run, y, hends,
    hone, hmatches, hcompletes, hstop, hunpaired⟩

end Bourse
