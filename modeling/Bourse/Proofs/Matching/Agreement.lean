import Bourse.Engine
import Bourse.Proofs.Matching.Timeless
import Bourse.Proofs.Settlement.Calls
import Bourse.Proofs.Store.Regular
import Bourse.Proofs.Task

/-!
# The two ways of matching agree

An order that has just come to the book is matched at once, and a market is matched from time to
time. Where every pair of the market that may trade contains the order, both make the same trades
in the same sequence and leave the same orders, whatever the ledger answers in between.
-/

namespace Bourse

/-- A store that nobody else uses, how many stamps are drawn, and how often the ledger was asked. -/
structure Desk where
  store : Store
  drawn : ℕ
  asked : ℕ

/-- The ledger answers each call as it likes. -/
abbrev LedgerAnswers := ℕ → (c : LedgerCall) → Except LedgerError c.Answer

/-- Answers calls in turn, with stamps from a sequence and whatever the ledger says. -/
def Desk.handler (stamps : ℕ → Stamp) (answers : LedgerAnswers) : Work.Handler Desk
  | .stamp, x => (stamps x.drawn, { x with drawn := x.drawn + 1 })
  | .store c, x =>
    let (reply, store) := x.store.perform (stamps x.drawn) c
    (reply, { x with store, drawn := x.drawn + 1 })
  | .ledger c, x => (.ok (answers x.asked c), { x with asked := x.asked + 1 })

namespace Desk

variable {stamps stamps' : ℕ → Stamp} {answers answers' : LedgerAnswers} {x x' y : Desk}
  {ε α : Type}

/-- A call to the store that has an answer. -/
theorem ends_store {c : StoreCall} {r : Except StoreError c.Answer} {store : Store}
    (h : x.store.perform (stamps x.drawn) c = (.ok r, store)) :
    Task.Ends (handler stamps answers) (Task.store c) x r
      { x with store, drawn := x.drawn + 1 } := by
  show ((x.store.perform (stamps x.drawn) c).1,
    ({ x with store := (x.store.perform (stamps x.drawn) c).2, drawn := x.drawn + 1 } : Desk)) = _
  rw [h]

/-! ### Settling leaves the orders alone -/

/-- A task that ends without a change of orders. -/
def KeepsOrders (stamps : ℕ → Stamp) (answers : LedgerAnswers) (t : Task ε α) : Prop :=
  ∀ x, ∃ r y, Task.Ends (handler stamps answers) t x r y ∧ y.store.orders = x.store.orders

theorem KeepsOrders.bind {β : Type} {t : Task ε α} {f : α → Task ε β}
    (ht : KeepsOrders stamps answers t) (hf : ∀ a, KeepsOrders stamps answers (f a)) :
    KeepsOrders stamps answers (t >>= f) := by
  intro x
  obtain ⟨r, y, hends, hy⟩ := ht x
  cases r with
  | error e => exact ⟨.error e, y, hends.bind_error, hy⟩
  | ok a =>
    obtain ⟨r, z, hends', hz⟩ := hf a y
    exact ⟨r, z, hends.bind hends', hz.trans hy⟩

theorem KeepsOrders.attempt {δ : Type} {t : Task ε α} (ht : KeepsOrders stamps answers t) :
    KeepsOrders stamps answers (t.attempt : Task δ (Except ε α)) := by
  intro x
  obtain ⟨r, y, hends, hy⟩ := ht x
  exact ⟨.ok r, y, hends.attempt, hy⟩

theorem KeepsOrders.pure (a : α) : KeepsOrders stamps answers (pure a : Task ε α) :=
  fun x => ⟨.ok a, x, Task.Ends.pure, rfl⟩

theorem KeepsOrders.throw (e : ε) : KeepsOrders stamps answers (throw e : Task ε α) :=
  fun x => ⟨.error e, x, Task.Ends.throw, rfl⟩

theorem keepsOrders_ledger (c : LedgerCall) : KeepsOrders stamps answers (Task.ledger c) :=
  fun x => ⟨answers x.asked c, { x with asked := x.asked + 1 }, rfl, rfl⟩

/-- A call about settlements always has an answer. -/
theorem keepsOrders_replyWith {c : StoreCall}
    (hreply : ∀ (s : Store) stamp, ∃ r, s.perform stamp c = s.replyWith r)
    (horders : ∀ (s : Store) stamp, (s.perform stamp c).2.orders = s.orders) :
    KeepsOrders stamps answers (Task.store c) := by
  intro x
  obtain ⟨r, hr⟩ := hreply x.store (stamps x.drawn)
  have hkept := horders x.store (stamps x.drawn)
  rw [hr] at hkept
  cases r with
  | error e => exact ⟨.error e, _, ends_store hr, hkept⟩
  | ok found => exact ⟨.ok found.1, _, ends_store hr, hkept⟩

theorem keepsOrders_claimSettlement (id : TradeId) :
    KeepsOrders stamps answers (Task.store (.claimSettlement id)) := by
  refine keepsOrders_replyWith (fun s stamp => ⟨_, rfl⟩) fun s stamp => ?_
  cases s.ordersStep stamp (.claimSettlement id) with
  | unchanged horders _ => exact horders

theorem keepsOrders_recordAttempt (id : TradeId) (failure : Option String) (limit : UInt32) :
    KeepsOrders stamps answers (Task.store (.recordAttempt id failure limit)) := by
  refine keepsOrders_replyWith (fun s stamp => ⟨_, rfl⟩) fun s stamp => ?_
  cases s.ordersStep stamp (.recordAttempt id failure limit) with
  | unchanged horders _ => exact horders

theorem keepsOrders_releaseClaim (id : TradeId) :
    KeepsOrders stamps answers (Task.store (.releaseClaim id)) := by
  refine keepsOrders_replyWith (fun s stamp => ⟨_, rfl⟩) fun s stamp => ?_
  cases s.ordersStep stamp (.releaseClaim id) with
  | unchanged horders _ => exact horders

theorem keepsOrders_giveBack (id : TradeId) :
    KeepsOrders stamps answers (Settler.giveBack id : Task ε Unit) :=
  (keepsOrders_releaseClaim id).attempt.bind fun _ => .pure ()

theorem keepsOrders_settleClaimed (settler : Settler) (r : SettlementRecord) :
    KeepsOrders stamps answers (settler.settleClaimed r) := by
  refine (keepsOrders_ledger _).attempt.bind fun answer => ?_
  refine (keepsOrders_recordAttempt _ _ _).attempt.bind fun recorded => ?_
  cases recorded with
  | ok r' => exact .pure r'
  | error e => exact (keepsOrders_giveBack _).bind fun _ => .throw e

theorem keepsOrders_settle (settler : Settler) (id : TradeId) :
    KeepsOrders stamps answers (settler.settle id) := by
  refine (keepsOrders_claimSettlement id).bind fun claimed => ?_
  cases claimed with
  | none => exact .pure none
  | some r => exact (keepsOrders_settleClaimed settler r).bind fun _ => .pure _

/-- A settler makes no trades. -/
theorem trades_eq_of_settle {settler : Settler} {id : TradeId}
    {r : Except StoreError (Option SettlementStatus)}
    (h : Task.Ends (handler stamps answers) (settler.settle id) x r y) :
    y.store.trades = x.store.trades := by
  have hrun := (settler.only_settle id).run (h := handler stamps answers)
    (P := fun z : Desk => z.store.trades = x.store.trades) (fun c z hc hz => ?_) rfl
  · rwa [show (settler.settle id).work.run (handler stamps answers) x = _ from h] at hrun
  · cases c with
    | stamp => exact hz
    | ledger c => exact hz
    | store c =>
      refine Eq.trans ?_ hz
      have hstep := z.store.ordersStep (stamps z.drawn) c
      cases hstep with
      | unchanged _ htrades => exact htrades
      | inserted => exact False.elim hc
      | transitioned => exact False.elim hc
      | matched => exact False.elim hc

/-! ### One match -/

theorem ends_sideOf (stamps : ℕ → Stamp) (answers : LedgerAnswers) (x : Desk) (market : Market)
    (side : Side) : ∃ y, Task.Ends (handler stamps answers) (Engine.sideOf market side) x
      (.ok (x.store.sideOf market side)) y ∧ y.store = x.store :=
  ⟨{ x with drawn := x.drawn + 1 }, rfl, rfl⟩

theorem ends_incomingCandidate (stamps : ℕ → Stamp) (answers : LedgerAnswers) (x : Desk)
    (e : Engine) (id : OrderId) :
    ∃ y, Task.Ends (handler stamps answers) (e.incomingCandidate id) x
      (.ok (x.store.incomingCandidate e.allowSelfTrade id)) y ∧ y.store = x.store := by
  have hget : Task.Ends (handler stamps answers) (Task.store (.getOrder id)) x
      (.ok (x.store.orders.find? id)) { x with drawn := x.drawn + 1 } := rfl
  unfold Store.incomingCandidate
  cases hfound : x.store.orders.find? id with
  | none =>
    rw [hfound] at hget
    exact ⟨_, hget.bind Task.Ends.pure, rfl⟩
  | some incoming =>
    rw [hfound] at hget
    rw [Option.bind_some]
    by_cases hrest : incoming.isResting = true
    · obtain ⟨y, hends, hy⟩ := ends_sideOf stamps answers { x with drawn := x.drawn + 1 }
        incoming.market incoming.side.opposite
      refine ⟨y, hget.bind ?_, hy⟩
      dsimp only
      rw [if_pos hrest]
      exact hends.bind Task.Ends.pure
    · refine ⟨{ x with drawn := x.drawn + 1 }, hget.bind ?_, rfl⟩
      dsimp only
      rw [if_neg hrest, counterparty, if_neg hrest]
      exact Task.Ends.pure

theorem ends_bestCandidate (stamps : ℕ → Stamp) (answers : LedgerAnswers) (x : Desk)
    (e : Engine) (market : Market) :
    ∃ y, Task.Ends (handler stamps answers) (e.bestCandidate market) x
      (.ok (x.store.bestCandidate e.allowSelfTrade market)) y ∧ y.store = x.store := by
  obtain ⟨y, hbuys, hy⟩ := ends_sideOf stamps answers x market .buy
  obtain ⟨z, hsells, hz⟩ := ends_sideOf stamps answers y market .sell
  unfold Store.bestCandidate
  by_cases hempty : (x.store.sideOf market .buy).isEmpty = true
  · refine ⟨y, hbuys.bind ?_, hy⟩
    rw [if_pos hempty, List.isEmpty_iff.1 hempty]
    exact Task.Ends.pure
  · refine ⟨z, hbuys.bind ?_, hz.trans hy⟩
    rw [if_neg hempty]
    rw [hy] at hsells
    exact hsells.bind Task.Ends.pure

/-- A pair that is tradable is matched, and settling its trade leaves the orders and the trades as
they are. -/
theorem ends_execute (stamps : ℕ → Stamp) (answers : LedgerAnswers) {e : Engine}
    (hfees : e.fees.Fractions) (hx : x.store.Regular) {c : MatchCandidate} {maker taker : Order}
    (hne : c.makerOrderId ≠ c.takerOrderId)
    (hmaker : x.store.orders.find? c.makerOrderId = some maker)
    (htaker : x.store.orders.find? c.takerOrderId = some taker)
    (h : Tradable maker taker c.quantity) :
    ∃ m y, x.store.Matches (stamps x.drawn) c.makerOrderId c.takerOrderId c.quantity e.fees maker
        taker m ∧
      Task.Ends (handler stamps answers) (e.execute c) x (.ok (some m.trade)) y ∧
      y.store.orders = (x.store.orders.put m.maker).put m.taker ∧
      y.store.trades = x.store.trades ++ [m.trade] := by
  obtain ⟨m, r, hm, -, hcommit⟩ := Store.commitMatch_executed hx hfees.shares (stamps x.drawn) hne
    hmaker htaker h
  let x₁ : Desk :=
    ⟨(x.store.record m).pushSettlement r, x.drawn + 1, x.asked⟩
  have hstore : Task.Ends (handler stamps answers)
      (Task.store (.commitMatch c.makerOrderId c.takerOrderId c.quantity e.fees)) x
      (.ok (.executed m.trade)) x₁ := by
    refine ends_store ?_
    simp only [Store.perform, hcommit]
    rfl
  obtain ⟨settled, y, hends, hy⟩ := keepsOrders_settle e.settler m.trade.id x₁
  exact ⟨m, y, hm, hstore.bind (hends.attempt.bind Task.Ends.pure), hy, trades_eq_of_settle hends⟩

/-! ### Runs -/

/-- From stores that differ in clock readings, both ways of matching make the same trades and come
to such stores again. -/
theorem runs_agree (stamps stamps' : ℕ → Stamp) (answers answers' : LedgerAnswers) {e : Engine}
    (hfees : e.fees.Fractions) {id : OrderId} {market : Market} (n : ℕ)
    (hx : x.store.Regular) (hx' : x'.store.Regular) (hsame : x.store.SameOrders x'.store)
    (ho : ∃ o, x'.store.orders.find? id = some o ∧ o.market = market)
    (hpairs : x'.store.PairsContain e.allowSelfTrade market id) :
    ∃ trades trades' stop y y',
      Task.Ends (handler stamps answers) (e.matchIncomingRepeatedly id n) x (.ok trades) y ∧
      Task.Ends (handler stamps' answers') (e.matchRepeatedly market n : Task ε _) x'
        (.ok (trades', stop)) y' ∧
      trades.map Trade.unnamed = trades'.map Trade.unnamed ∧ y.store.SameOrders y'.store := by
  induction n generalizing x x' with
  | zero => exact ⟨[], [], .iterationCap, x, x', rfl, rfl, rfl, hsame⟩
  | succ n ih =>
    obtain ⟨o, ho, rfl⟩ := ho
    obtain ⟨y, hincoming, hy⟩ := ends_incomingCandidate stamps answers x e id
    obtain ⟨y', hbest, hy'⟩ := ends_bestCandidate stamps' answers' x' e o.market
    -- Both look at the same book and find the same pair.
    have hcandidate : x'.store.bestCandidate e.allowSelfTrade o.market =
        x'.store.incomingCandidate e.allowSelfTrade id :=
      bestCandidate_eq_incomingCandidate ho hpairs
    rw [hcandidate, ← hsame.incomingCandidate id] at hbest
    cases hc : x.store.incomingCandidate e.allowSelfTrade id with
    | none =>
      rw [hc] at hincoming hbest
      refine ⟨[], [], .exhausted, y, y', hincoming.bind Task.Ends.pure,
        hbest.attempt.bind Task.Ends.pure, rfl, ?_⟩
      rw [hy, hy']
      exact hsame
    | some c =>
      have hc' := hc
      rw [hc] at hincoming hbest
      rw [hsame.incomingCandidate id] at hc'
      rw [← hy] at hx hsame hc
      rw [← hy'] at hx' hsame hc' ho hpairs
      obtain ⟨maker, taker, hne, hmaker, htaker, htradable, -⟩ :=
        Store.tradable_of_incomingCandidate hc
      obtain ⟨maker', taker', -, hmaker', htaker', htradable', -⟩ :=
        Store.tradable_of_incomingCandidate hc'
      obtain ⟨m, z, hm, hexecute, hz, -⟩ :=
        ends_execute stamps answers hfees hx hne hmaker htaker htradable
      obtain ⟨m', z', hm', hexecute', hz', -⟩ :=
        ends_execute stamps' answers' hfees hx' hne hmaker' htaker' htradable'
      obtain ⟨htrade, hmatched⟩ := hsame.matched hm hm'
      have hzsame : z.store.SameOrders z'.store := by
        rw [Store.SameOrders, hz, hz']
        exact hmatched
      have hzregular : z.store.Regular := by
        rw [Store.Regular, hz]
        exact hm.regular hx
      have hzregular' : z'.store.Regular := by
        rw [Store.Regular, hz']
        exact hm'.regular hx'
      have ho' : ∃ p, z'.store.orders.find? id = some p ∧ p.market = o.market := by
        rw [hz']
        exact hm'.find?_after ho
      obtain ⟨trades, trades', stop, w, w', hrest, hrest', htrades, hw⟩ :=
        ih hzregular hzregular' hzsame ho' (hpairs.matched hm' hz')
      refine ⟨m.trade :: trades, m'.trade :: trades', stop, w, w', ?_, ?_, ?_, hw⟩
      · exact hincoming.bind (hexecute.bind (hrest.bind Task.Ends.pure))
      · exact hbest.attempt.bind (hexecute'.attempt.bind (hrest'.bind Task.Ends.pure))
      · rw [List.map_cons, List.map_cons, htrade, htrades]

end Desk

/-- An order is matched at once or with its market, by one who alone uses the store. If every pair
of the market that may trade contains the order, the trades are the same, and so are the orders that
are left, but for the names of trades and readings of the clock. -/
theorem Engine.matchIncoming_agrees (e : Engine) (hfees : e.fees.Fractions)
    {calls : List (Stamp × StoreCall)} (hcalls : ∀ c ∈ calls, Store.InsertsCreated c.2) {o : Order}
    (ho : o ∈ (Store.empty.afterCalls calls).orders.entries)
    (hpairs : (Store.empty.afterCalls calls).PairsContain e.allowSelfTrade o.market o.id)
    (stamps stamps' : ℕ → Stamp) (answers answers' : LedgerAnswers) :
    let x : Desk := ⟨Store.empty.afterCalls calls, 0, 0⟩
    ∃ trades run y y',
      Task.Ends (Desk.handler stamps answers) (e.matchIncoming o.id) x (.ok trades) y ∧
      Task.Ends (Desk.handler stamps' answers') (e.matchMarket o.market : Task Empty MarketRun) x
        (.ok run) y' ∧
      trades.map Trade.unnamed = run.trades.map Trade.unnamed ∧
      y.store.orders.entries.map Order.timeless = y'.store.orders.entries.map Order.timeless := by
  intro x
  have hregular : x.store.Regular := Store.regular_afterCalls hcalls
  have hfound : x.store.orders.find? o.id = some o := OrderTable.find?_of_mem ho
  obtain ⟨trades, trades', stop, y, y', hincoming, hmarket, htrades, hsame⟩ :=
    Desk.runs_agree stamps stamps' answers answers' hfees e.maxIterations.toNat hregular hregular
      rfl ⟨o, hfound, rfl⟩ hpairs
  exact ⟨trades, ⟨o.market, trades', stop⟩, y, y', hincoming, hmarket.bind Task.Ends.pure, htrades,
    hsame⟩

/-- A buy of two units of gold, and a sell of three that trades with it. -/
def twoResting : List (Stamp × StoreCall) :=
  let calls : List StoreCall :=
    [.insertOrder (.gold 1 .buy (.ofWord 2) (.ofWord 100) 1),
      .insertOrder (.gold 2 .sell (.ofWord 3) (.ofWord 98) 2),
      .transitionOrder ⟨.ofNat 1⟩ .confirm, .transitionOrder ⟨.ofNat 2⟩ .confirm]
  calls.map fun c => (⟨.ofNat 3, .epoch⟩, c)

theorem insertsCreated_twoResting : ∀ c ∈ twoResting, Store.InsertsCreated c.2 := by
  simp only [twoResting, List.map_cons, List.map_nil, List.forall_mem_cons]
  refine ⟨?_, ?_, trivial, trivial, by simp⟩
  · exact Order.create_gold 1 .buy 1 (by decide) (by decide) ⟨_, rfl⟩
  · exact Order.create_gold 2 .sell 2 (by decide) (by decide) ⟨_, rfl⟩

/-- A ledger that is down. -/
def LedgerAnswers.down : LedgerAnswers := fun _ _ => .error (.unavailable "down")

/-- A ledger that grants everything. -/
def LedgerAnswers.granting : LedgerAnswers
  | _, .validate _ _ _ => .ok true
  | _, .lock user asset amount => .ok ⟨user, asset, .zero, amount⟩
  | _, .unlock _ _ _ => .ok ()
  | _, .settle _ _ => .ok ()

theorem Engine.matchIncoming_agrees_twoResting :
    let e : Engine := ⟨.standard, .create 3 10, 100, false⟩
    let x : Desk := ⟨Store.empty.afterCalls twoResting, 0, 0⟩
    let stamps (first n : ℕ) : Stamp := ⟨.ofNat (first + n), .epoch⟩
    (e.fees.Fractions ∧ ∀ c ∈ twoResting, Store.InsertsCreated c.2) ∧
    ∃ o ∈ x.store.orders.entries, x.store.PairsContain e.allowSelfTrade o.market o.id ∧
      ∃ trades run y y', trades.length = 1 ∧
        Task.Ends (Desk.handler (stamps 10) .down) (e.matchIncoming o.id) x (.ok trades) y ∧
        Task.Ends (Desk.handler (stamps 50) .granting) (e.matchMarket o.market : Task Empty _) x
          (.ok run) y' ∧
        trades.map Trade.unnamed = run.trades.map Trade.unnamed ∧
        y.store.orders.entries.map Order.timeless = y'.store.orders.entries.map Order.timeless := by
  intro e x stamps
  have hfound : (x.store.orders.find? ⟨.ofNat 2⟩).isSome = true := by decide +kernel
  obtain ⟨o, ho⟩ := Option.isSome_iff_exists.1 hfound
  obtain ⟨hmem, hid⟩ := OrderTable.find?_eq_some_iff.1 ho
  have hsells : ∀ p ∈ x.store.orders.entries, p.side = .sell → p.id = ⟨.ofNat 2⟩ := by
    decide +kernel
  have hpairs : x.store.PairsContain e.allowSelfTrade o.market o.id := by
    intro buy _ sell hsell hadmissible _
    right
    rw [hid]
    exact hsells sell hsell hadmissible.sell_side
  obtain ⟨trades, run, y, y', hincoming, hmarket, htrades, horders⟩ :=
    Engine.matchIncoming_agrees e FeeSchedule.standard_fractions insertsCreated_twoResting hmem
      hpairs (stamps 10) (stamps 50) .down .granting
  have hlength : ((e.matchIncoming ⟨.ofNat 2⟩).work.run (Desk.handler (stamps 10) .down) x).1.map
      (fun r => r.map List.length) = .ok (.ok 1) := by
    decide +kernel
  have hone : trades.length = 1 := by
    rw [← hid, show (e.matchIncoming o.id).work.run _ x = _ from hincoming] at hlength
    exact Except.ok.inj (Except.ok.inj hlength)
  exact ⟨⟨FeeSchedule.standard_fractions, insertsCreated_twoResting⟩, o, hmem, hpairs, trades, run,
    y, y', hone, hincoming, hmarket, htrades, horders⟩

end Bourse
