import Bourse.Proofs.Matching.Arrivals
import Bourse.Proofs.Matching.BookViews
import Bourse.Proofs.Matching.Insertions
import Bourse.Proofs.Reserve.Operations

/-!
# No pair is left that may trade

Between two operations of one who alone uses the store, no pair of resting orders may trade, as long
as the engine may make as many matches in a run as there are orders. Placing an order keeps it so,
and no other operation inserts an order.
-/

namespace Bourse

/-- Operations other than placing an order insert none. -/
theorem Operation.only_insertsNone (e : Engine) {op : Operation}
    (hop : ∀ request, op ≠ .create request) : (op.work e).Only Call.InsertsNone := by
  cases op with
  | create request => exact absurd rfl (hop request)
  | confirm id => exact (Service.only_confirmIfPending id).ignoring
  | cancel id user reason => exact (Service.only_cancelOrder id user reason).ignoring
  | cancelAll user reason => exact (Service.only_cancelAll user reason).ignoring
  | pass turns => exact (e.only_runPass turns).ignoring
  | drain settler =>
    have hdrain : settler.drain.Only Call.InsertsNone :=
      settler.only_drain.mono fun _ h => h.insertsNone
    exact hdrain.ignoring

namespace Desk

variable {stamps : ℕ → Stamp} {answers : LedgerAnswers} {x : Desk} {e : Engine} {ε : Type}

/-- The desk after several operations. -/
def afterOperations (e : Engine) (stamps : ℕ → Stamp) (answers : LedgerAnswers) (x : Desk)
    (ops : List Operation) : Desk :=
  ((Operation.workAll e ops).run (handler stamps answers) x).2

/-- Work that inserts no order does not disturb a quiet store. -/
theorem quiet_run {α : Type} {allowSelfTrade : Bool} {w : Work α} (hw : w.Only Call.InsertsNone)
    (hx : x.store.Quiet allowSelfTrade) :
    (w.run (handler stamps answers) x).2.store.Quiet allowSelfTrade := by
  refine hw.run (P := fun y : Desk => y.store.Quiet allowSelfTrade) (fun c y hc hy => ?_) hx
  cases c with
  | store c =>
    refine hy.perform (stamps y.drawn) ?_
    rintro o rfl
    exact hc
  | _ => exact hy

theorem settled_operation (hfees : e.fees.Fractions) (hx : x.store.Settled e) (op : Operation) :
    ((op.work e).run (handler stamps answers) x).2.store.Settled e := by
  by_cases hle : x.store.orders.entries.length ≤ e.maxIterations.toNat
  · by_cases hop : ∃ request, op = .create request
    · obtain ⟨request, rfl⟩ := hop
      have hcreate : ((Operation.create request).work e).wp
          (Work.Handler.answers (handler stamps answers)) (fun _ _ => True) (fun _ _ => True)
          (fun _ y => y.store.Settled e) x := Work.wp_bind.2 (wp_createOrder hfees (hx hle) request)
      exact Work.wp_iff_run.1 hcreate
    · exact fun _ => quiet_run (Operation.only_insertsNone e fun r h => hop ⟨r, h⟩) (hx hle)
  · exact fun hlength => absurd ((length_le_run _).trans hlength) hle

theorem settled_operations (hfees : e.fees.Fractions) (hx : x.store.Settled e)
    (ops : List Operation) : (x.afterOperations e stamps answers ops).store.Settled e := by
  induction ops generalizing x with
  | nil => exact hx
  | cons op ops ih =>
    rw [afterOperations, Operation.workAll, Work.run_bind]
    exact ih (settled_operation hfees hx op)

/-! ### Looking at a quiet store -/

/-- A call that looks at one side of a market. -/
def IsLook : Call → Prop
  | .store (.restingOrders _ _) => True
  | _ => False

/-- What is seen in a store that nobody changes. -/
def sees (s : Store) : Work.Answers Unit
  | .store (.restingOrders market side), _, reply, _ =>
    reply = .ok (.ok (s.restingOrders market side))
  | _, _, _, _ => True

/-- Whoever looks at a store leaves it as it is. -/
theorem moves_looks (stamps : ℕ → Stamp) (answers : LedgerAnswers) (s : Store) :
    Work.Moves (Work.Handler.answers (handler stamps answers)) (fun _ _ => True) (fun _ _ => True)
      (sees s) (fun c _ => IsLook c) (fun _ x => x.store = s) := by
  intro stages place c x hx hlook _
  refine ⟨trivial, ?_⟩
  rintro reply x' hx'
  obtain ⟨rfl, rfl⟩ := Prod.mk.inj hx'
  cases c with
  | store c =>
    cases c with
    | restingOrders market side => exact ⟨(), by rw [← hx]; rfl, hx⟩
    | _ => exact absurd hlook id
  | _ => exact absurd hlook id

section Looks

variable {s : Store}

theorem sees_sideOf (s : Store) (market : Market) (side : Side) :
    (Engine.sideOf market side).wp (sees s) (fun _ _ => True) (fun c _ => IsLook c)
      (fun r _ => r = .ok (.ok (s.sideOf market side))) () := by
  refine Task.wp_bind.2 (Task.wp_store.2 fun _ => ⟨trivial, ?_⟩)
  rintro reply k rfl
  exact Task.wp_pure.2 rfl

theorem sees_bestCandidate (s : Store) (e : Engine) (market : Market) :
    (e.bestCandidate market).wp (sees s) (fun _ _ => True) (fun c _ => IsLook c)
      (fun r _ => r = .ok (.ok (s.bestCandidate e.allowSelfTrade market))) () := by
  refine Task.wp_bind.2 (Task.wp_mono (sees_sideOf s market .buy) ?_)
  rintro reply k rfl
  unfold Store.bestCandidate
  show Task.wp _ _ _ (if _ then _ else _) _ _
  by_cases hempty : (s.sideOf market .buy).isEmpty = true
  · rw [if_pos hempty, List.isEmpty_iff.1 hempty]
    exact Task.wp_pure.2 rfl
  · rw [if_neg hempty]
    refine Task.wp_bind.2 (Task.wp_mono (sees_sideOf s market .sell) ?_)
    rintro reply k rfl
    exact Task.wp_pure.2 rfl

/-- A run without trades that ends in no conflict. -/
def Idle (run : Checked MarketRun) : Prop :=
  ∃ market stop, run = .ok ⟨market, [], stop⟩ ∧ stop ≠ .conflict

/-- A market without a pair is not matched. -/
theorem sees_marketWork (hs : s.Quiet e.allowSelfTrade) (market : Market) :
    (e.marketWork market).wp (sees s) (fun _ _ => True) (fun c _ => IsLook c)
      (fun run _ => Idle run) () := by
  refine Work.wp_bind.2 (show Task.wp _ _ _ (e.matchMarket market : Task Empty MarketRun) _ _ from ?_)
  refine Task.wp_bind.2 ?_
  cases e.maxIterations.toNat with
  | zero => exact ⟨market, .iterationCap, rfl, fun h => (by cases h)⟩
  | succ n =>
    refine Task.wp_bind.2 (Task.wp_attempt.2 (Task.wp_mono (sees_bestCandidate s e market) ?_))
    rintro r k rfl
    have hnone : s.bestCandidate e.allowSelfTrade market = none := by
      refine Store.bestCandidate_eq_none_iff.2 fun buy hbuy sell hsell hadmissible => ?_
      exact absurd hadmissible (hs.unpaired buy hbuy sell hsell)
    rw [hnone]
    exact ⟨market, .exhausted, rfl, fun h => (by cases h)⟩

theorem foldl_count_of_idle {runs : List (Checked MarketRun)} (h : ∀ run ∈ runs, Idle run)
    (summary : PassSummary) : runs.foldl PassSummary.count summary = summary := by
  induction runs with
  | nil => rfl
  | cons run runs ih =>
    obtain ⟨⟨market, stop, rfl, hstop⟩, hruns⟩ := List.forall_mem_cons.1 h
    have hcount : summary.count (.ok ⟨market, [], stop⟩) = summary := by
      rw [PassSummary.count, if_neg hstop]
      rfl
    rw [List.foldl_cons, hcount, ih hruns]

end Looks

/-- A pass over a quiet store makes no trade, whatever the turns of its markets are. -/
theorem ends_runPass (stamps : ℕ → Stamp) (answers : LedgerAnswers)
    (hx : x.store.Quiet e.allowSelfTrade) (turns : List ℕ) :
    ∃ y, Task.Ends (handler stamps answers) (e.runPass turns) x
        (.ok ⟨x.store.activeMarkets.length, 0, 0⟩) y ∧ y.store = x.store := by
  have hread : Task.Ends (handler stamps answers) (Task.store .activeMarkets) x
      (.ok x.store.activeMarkets) { x with drawn := x.drawn + 1 } := rfl
  let works := x.store.activeMarkets.map e.marketWork
  have hworks : ∀ (i : ℕ) (work : Work (Checked MarketRun)), works[i]? = some work →
      work.wp (sees x.store) (fun _ _ => True) (fun c _ => IsLook c)
        (fun run _ => Idle run ∧ True) () := by
    intro i work hwork
    obtain ⟨market, -, rfl⟩ := List.mem_map.1 (List.mem_of_getElem? hwork)
    exact Work.wp_mono (sees_marketWork hx market) fun _ _ hidle => ⟨hidle, trivial⟩
  obtain ⟨hidle, -, hy, -⟩ := Work.wp_iff_run.1 (Work.wp_sideBySide
    (moves_looks stamps answers x.store) (s := { x with drawn := x.drawn + 1 }) rfl turns hworks
    fun _ _ => trivial)
  refine ⟨_, hread.bind (Task.ends_ofSure.bind ?_), hy⟩
  rw [foldl_count_of_idle hidle]
  exact Task.Ends.pure

/-- Where everyone may trade with everyone, a quiet store has a gap between bids and asks. -/
theorem bid_lt_ask_of_quiet (stamps : ℕ → Stamp) (answers : LedgerAnswers)
    (hx : x.store.Quiet true) (market : Market) :
    ∃ best y, Task.Ends (handler stamps answers) (Engine.bestBidAsk market) x (.ok best) y ∧
      ∀ bid ask, best.bestBid = some bid → best.bestAsk = some ask → bid < ask := by
  have hgap : ∀ bid ∈ x.store.sideOf market .buy, ∀ ask ∈ x.store.sideOf market .sell,
      bid.price < ask.price := by
    intro bid hbid ask hask
    rw [Decimal.lt_iff, ← not_le, ← Decimal.le_iff]
    intro hle
    refine hx.unpaired bid (Store.mem_sideOf_iff.1 hbid).1 ask (Store.mem_sideOf_iff.1 hask).1
      (admissible_of_mem hbid hask ?_)
    rw [mayTrade, Bool.and_eq_true, crosses, decide_eq_true_eq, ownersMayTrade_iff]
    exact ⟨hle, Or.inl rfl⟩
  obtain ⟨best, hbest⟩ := hx.regular.exists_bestBidAsk market
  obtain ⟨y, hends, -⟩ := ends_bestBidAsk stamps answers hbest
  refine ⟨best, y, hends, fun bid ask hbid hask => ?_⟩
  obtain ⟨spread, rfl⟩ := ofSides_eq_ok hbest
  obtain ⟨b, hb, rfl⟩ := Option.map_eq_some_iff.1 hbid
  obtain ⟨a, ha, rfl⟩ := Option.map_eq_some_iff.1 hask
  exact hgap b (List.mem_of_mem_head? hb) a (List.mem_of_mem_head? ha)

/-- After any operations, a resting buy and a resting sell of one market whose prices cross are of
one owner, who may not trade with himself. So a pass makes no trade, whatever its turns are, and where
self-trading is allowed, the best bid is below the best ask. -/
theorem no_pair_left (e : Engine) (hfees : e.fees.Fractions) (stamps : ℕ → Stamp)
    (answers : LedgerAnswers) (ops : List Operation) :
    let x := afterOperations e stamps answers ⟨Store.empty, 0, 0⟩ ops
    x.store.orders.entries.length ≤ e.maxIterations.toNat →
    (∀ buy ∈ x.store.orders.entries, ∀ sell ∈ x.store.orders.entries,
      buy.isResting = true → sell.isResting = true → buy.side = .buy → sell.side = .sell →
      buy.market = sell.market → sell.price ≤ buy.price →
      buy.userId = sell.userId ∧ e.allowSelfTrade = false) ∧
    (∀ turns, ∃ summary y, Task.Ends (handler stamps answers) (e.runPass turns) x (.ok summary) y ∧
      summary.trades = 0 ∧ y.store = x.store) ∧
    (e.allowSelfTrade = true → ∀ market, ∃ best y,
      Task.Ends (handler stamps answers) (Engine.bestBidAsk market) x (.ok best) y ∧
      ∀ bid ask, best.bestBid = some bid → best.bestAsk = some ask → bid < ask) := by
  intro x hlength
  have hx : x.store.Quiet e.allowSelfTrade :=
    settled_operations hfees (fun _ => Store.quiet_empty _) ops hlength
  refine ⟨?_, fun turns => ?_, fun hself market => ?_⟩
  · intro buy hbuy sell hsell hbrest hsrest hbside hsside hmarket hcross
    have howners : ¬(e.allowSelfTrade = true ∨ buy.userId ≠ sell.userId) := fun howners =>
      hx.unpaired buy hbuy sell hsell
        ⟨hbrest, hsrest, hbside, hsside, hmarket, hcross, howners⟩
    rw [not_or, Bool.not_eq_true, not_ne_iff] at howners
    exact ⟨howners.2, howners.1⟩
  · obtain ⟨y, hpass, hy⟩ := ends_runPass stamps answers hx turns
    exact ⟨_, y, hpass, rfl, hy⟩
  · rw [hself] at hx
    exact bid_lt_ask_of_quiet stamps answers hx market

/-- A buy of one user, a sell of the same user at a lower price, and a sell of another user in
between that trades with the buy. Then the book is passed over, and the rest of the sell is
cancelled. -/
def selfCrossing : List Operation :=
  let order user side quantity price : Operation :=
    .create ⟨⟨user⟩, side, "XAU/USD", .ofWord quantity, .ofWord price, .spot, none⟩
  [order 1 .buy 5 100, order 1 .sell 2 90, order 2 .sell 3 95, .pass [0, 0], .cancelAll ⟨2⟩ "done",
    .drain (.create 3 10)]

theorem no_pair_left_selfCrossing :
    let e : Engine := ⟨.standard, .create 3 10, 3, false⟩
    let x := afterOperations e numberedStamps .granting ⟨Store.empty, 0, 0⟩ selfCrossing
    (e.fees.Fractions ∧ x.store.orders.entries.length ≤ e.maxIterations.toNat) ∧
    x.store.trades.length = 1 ∧
    x.store.orders.entries.map Order.isResting = [true, true, false] ∧
    (∀ buy ∈ x.store.orders.entries, ∀ sell ∈ x.store.orders.entries,
      buy.isResting = true → sell.isResting = true → buy.side = .buy → sell.side = .sell →
      buy.market = sell.market → sell.price ≤ buy.price →
      buy.userId = sell.userId ∧ e.allowSelfTrade = false) ∧
    ∀ turns, ∃ summary y,
      Task.Ends (handler numberedStamps .granting) (e.runPass turns) x (.ok summary) y ∧
      summary.trades = 0 ∧ y.store = x.store := by
  intro e x
  have hrun : x.store.orders.entries.length ≤ 3 ∧ x.store.trades.length = 1 ∧
      x.store.orders.entries.map Order.isResting = [true, true, false] := by
    decide +kernel
  obtain ⟨hlength, htrades, hresting⟩ := hrun
  obtain ⟨howners, hpass, -⟩ := no_pair_left e FeeSchedule.standard_fractions numberedStamps
    .granting selfCrossing hlength
  exact ⟨⟨FeeSchedule.standard_fractions, hlength⟩, htrades, hresting, howners, hpass⟩

end Desk

end Bourse
