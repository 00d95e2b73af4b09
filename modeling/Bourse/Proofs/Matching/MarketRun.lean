import Bourse.Proofs.Matching.MarketView

/-!
# What a run of a market comes to

Whatever others do between its calls, as long as they leave its market alone, and whatever the
ledger answers: the run of a market comes to what the view at its beginning says, and its calls stay
within the market.
-/

namespace Bourse

/-- A run with its trades without names and times. -/
def MarketRun.unnamed (r : MarketRun) : MarketRun :=
  { r with trades := r.trades.map Trade.unnamed }

namespace MarketView

/-- How a call may be answered: as it is by a store with this view, and by a ledger that says
anything. -/
def answers (market : Market) : Work.Answers MarketView := fun call v reply v' =>
  ∃ (s : Store) (stamp : Stamp) (ledger : (c : LedgerCall) → Except LedgerError c.Answer),
    s.Regular ∧ s.view market = v ∧
      (Floor.answer s stamp (fun c => .ok (ledger c)) call).1 = reply ∧
      (Floor.answer s stamp (fun c => .ok (ledger c)) call).2.view market = v'

variable {ε δ α β : Type} {market : Market} {v : MarketView} {e : Engine}

/-- Whatever the answers are, a task makes only calls within the market and comes to `Q`. -/
def Leads (market : Market) (t : Task ε α) (Q : Outcome ε α → MarketView → Prop)
    (v : MarketView) : Prop :=
  t.wp (answers market) (fun _ _ => True) Call.Within Q v

/-! ### Settling leaves the view alone -/

/-- A task that comes to a result or fails, and changes nothing of the view. -/
def Idle (market : Market) (t : Task ε α) : Prop :=
  ∀ v, Leads market t (fun r v' => v' = v ∧ ∃ a, r = .ok a) v

theorem Idle.bind {t : Task ε α} {f : α → Task ε β} (ht : Idle market t)
    (hf : ∀ a, Idle market (f a)) : Idle market (t >>= f) := by
  intro v
  refine Task.wp_bind.2 (Task.wp_mono (ht v) ?_)
  rintro (overflow | error | a) v' ⟨rfl, r, hr⟩
  · cases hr
  · exact ⟨rfl, _, rfl⟩
  · exact hf a v'

theorem Idle.attempt {t : Task ε α} (ht : Idle market t) :
    Idle market (t.attempt : Task δ (Except ε α)) := by
  intro v
  refine Task.wp_attempt.2 (Task.wp_mono (ht v) ?_)
  rintro _ v' ⟨rfl, a, rfl⟩
  exact ⟨rfl, _, rfl⟩

theorem Idle.pure (a : α) : Idle market (pure a : Task ε α) := fun _ => ⟨rfl, _, rfl⟩

theorem Idle.throw (error : ε) : Idle market (throw error : Task ε α) := fun _ => ⟨rfl, _, rfl⟩

theorem idle_ledger (c : LedgerCall) : Idle market (Task.ledger c) := by
  intro v
  refine Task.wp_ledger.2 fun _ => ⟨trivial, ?_⟩
  rintro _ _ ⟨s, stamp, ledger, -, rfl, rfl, rfl⟩
  exact ⟨rfl, _, rfl⟩

/-- A call for settlements always has an answer. -/
theorem idle_store {c : StoreCall} (hc : c.OfSettlements) : Idle market (Task.store c) := by
  have hreply : ∀ (s : Store) stamp, ∃ r, (s.perform stamp c).1 = .ok r := by
    have hreplyWith : ∀ {α : Type} (s : Store) (r : Except StoreError (α × Store)),
        ∃ a, (s.replyWith r).1 = .ok a := by
      intro α s r
      cases r <;> exact ⟨_, rfl⟩
    intro s stamp
    cases c with
    | claimSettlement id => exact hreplyWith s _
    | claimPending limit => exact ⟨_, rfl⟩
    | recordAttempt id failure limit => exact hreplyWith s _
    | releaseClaim id => exact hreplyWith s _
    | _ => exact absurd hc id
  have hwithin : ∀ v, (Call.store c).Within v := by
    intro v
    cases c <;> first | exact trivial | exact absurd hc id
  intro v
  refine Task.wp_store.2 fun _ => ⟨hwithin v, ?_⟩
  rintro _ _ ⟨s, stamp, ledger, -, rfl, rfl, rfl⟩
  have hsame := s.onlyTouches_perform stamp hc
  refine ⟨?_, hreply s stamp⟩
  show (s.perform stamp c).2.view market = s.view market
  rw [Store.view, Store.view, Store.ordersIn, Store.ordersIn, Store.tradesIn, Store.tradesIn,
    hsame.orders_eq, hsame.trades_eq]

theorem idle_giveBack (id : TradeId) : Idle market (Settler.giveBack id : Task ε Unit) := by
  have hrelease : Idle market (Task.store (.releaseClaim id)) := idle_store trivial
  exact hrelease.attempt.bind fun _ => .pure ()

theorem idle_settleClaimed (settler : Settler) (r : SettlementRecord) :
    Idle market (settler.settleClaimed r) := by
  refine (idle_ledger _).attempt.bind fun answer => ?_
  have hrecord : Idle market (Task.store (.recordAttempt r.trade.id (Settler.failure? answer)
      settler.maxAttempts)) := idle_store trivial
  refine hrecord.attempt.bind fun recorded => ?_
  cases recorded with
  | ok r' => exact .pure r'
  | error error => exact (idle_giveBack _).bind fun _ => .throw error

theorem idle_settle (settler : Settler) (id : TradeId) : Idle market (settler.settle id) := by
  have hclaim : Idle market (Task.store (.claimSettlement id)) := idle_store trivial
  refine hclaim.bind fun claimed => ?_
  cases claimed with
  | none => exact .pure none
  | some r => exact (idle_settleClaimed settler r).bind fun _ => .pure _

/-! ### One match -/

theorem leads_sideOf (market : Market) (side : Side) (v : MarketView) :
    Leads market (Engine.sideOf market side)
      (fun r v' => v' = v ∧ ∃ l, r = .ok (.ok l) ∧ l.map Order.timeless = v.sideOf side) v := by
  refine Task.wp_bind.2 (Task.wp_store.2 fun _ => ⟨trivial, ?_⟩)
  rintro _ _ ⟨s, stamp, ledger, -, rfl, rfl, rfl⟩
  exact ⟨rfl, s.sideOf market side, rfl, s.map_sideOf_eq market side⟩

theorem leads_bestCandidate (e : Engine) (market : Market) (v : MarketView) :
    Leads market (e.bestCandidate market)
      (fun r v' => v' = v ∧ r = .ok (.ok (v.bestCandidate e.allowSelfTrade))) v := by
  refine Task.wp_bind.2 (Task.wp_mono (leads_sideOf market .buy v) ?_)
  rintro _ v₁ ⟨rfl, buys, rfl, hbuys⟩
  have hbest : ∀ sells : List Order, sells.map Order.timeless = v₁.sideOf .sell →
      bestMatch e.allowSelfTrade buys sells = v₁.bestCandidate e.allowSelfTrade := by
    intro sells hsells
    rw [bestCandidate, ← hbuys, ← hsells, bestMatch_timeless]
  show Leads market (if buys.isEmpty then _ else _) _ v₁
  by_cases hempty : buys.isEmpty = true
  · rw [if_pos hempty]
    refine ⟨rfl, ?_⟩
    rw [bestCandidate, ← hbuys, List.isEmpty_iff.1 hempty]
    rfl
  · rw [if_neg hempty]
    refine Task.wp_bind.2 (Task.wp_mono (leads_sideOf market .sell v₁) ?_)
    rintro _ v₂ ⟨rfl, sells, rfl, hsells⟩
    refine ⟨rfl, ?_⟩
    rw [← hbest sells hsells]

/-- What is done with a pair: it is matched if it can be, and then its trade is settled. -/
theorem leads_execute (e : Engine) {c : MatchCandidate}
    (hc : (∃ o ∈ v.orders, o.id = c.makerOrderId) ∧ ∃ o ∈ v.orders, o.id = c.takerOrderId) :
    Leads market (e.execute c) (fun r v' =>
      match v.commitMatch e.fees c with
      | none => v' = v ∧ r = .ok (.ok none)
      | some (t, v'') => v' = v'' ∧ ∃ t', r = .ok (.ok (some t')) ∧ t'.unnamed = t) v := by
  refine Task.wp_bind.2 (Task.wp_store.2 fun _ => ⟨hc, ?_⟩)
  rintro _ _ ⟨s, stamp, ledger, hs, rfl, rfl, rfl⟩
  have hcommit := Store.commitMatch_view hs stamp e.fees hc.1 hc.2
  have hanswer : Floor.answer s stamp (fun c => .ok (ledger c))
      (.store (.commitMatch c.makerOrderId c.takerOrderId c.quantity e.fees)) =
      ((s.commitMatch stamp c.makerOrderId c.takerOrderId c.quantity e.fees).1.map .ok,
        (s.commitMatch stamp c.makerOrderId c.takerOrderId c.quantity e.fees).2) := rfl
  rw [hanswer]
  cases hv : (s.view market).commitMatch e.fees c with
  | none =>
    rw [hv] at hcommit
    obtain ⟨cause, hcommit⟩ := hcommit
    rw [hcommit]
    exact ⟨rfl, rfl⟩
  | some found =>
    obtain ⟨t, v''⟩ := found
    rw [hv] at hcommit
    obtain ⟨t', hexecuted, hunnamed, hview⟩ := hcommit
    rw [hexecuted]
    dsimp only
    rw [hview]
    refine Task.wp_bind.2 (Task.wp_attempt.2 (Task.wp_mono (idle_settle e.settler t'.id v'') ?_))
    rintro _ v₁ ⟨rfl, settled, rfl⟩
    exact ⟨rfl, t', rfl, hunnamed⟩

/-! ### The run -/

theorem leads_matchRepeatedly (e : Engine) (market : Market) (n : ℕ) (v : MarketView) :
    Leads market (e.matchRepeatedly market n : Task ε _) (fun r v' =>
      v' = (run e n v).2 ∧ ∃ trades, r = .ok (.ok (trades, (run e n v).1.2)) ∧
        trades.map Trade.unnamed = (run e n v).1.1) v := by
  induction n generalizing v with
  | zero => exact ⟨rfl, [], rfl, rfl⟩
  | succ n ih =>
    refine Task.wp_bind.2 (Task.wp_attempt.2 (Task.wp_mono (leads_bestCandidate e market v) ?_))
    rintro _ v₁ ⟨rfl, rfl⟩
    unfold run
    cases hc : v₁.bestCandidate e.allowSelfTrade with
    | none => exact ⟨rfl, [], rfl, rfl⟩
    | some c =>
      refine Task.wp_bind.2 (Task.wp_attempt.2 (Task.wp_mono
        (leads_execute e (mem_of_bestCandidate hc)) ?_))
      intro r v₂ hr
      dsimp only
      cases hcommit : v₁.commitMatch e.fees c with
      | none =>
        rw [hcommit] at hr
        obtain ⟨rfl, rfl⟩ := hr
        exact ⟨rfl, [], rfl, rfl⟩
      | some found =>
        obtain ⟨t, v₃⟩ := found
        rw [hcommit] at hr
        obtain ⟨rfl, t', rfl, hunnamed⟩ := hr
        refine Task.wp_bind.2 (Task.wp_mono (ih v₂) ?_)
        rintro _ v₃ ⟨rfl, trades, rfl, htrades⟩
        refine ⟨rfl, t' :: trades, rfl, ?_⟩
        rw [List.map_cons, hunnamed, htrades]

/-- The view after the run of its market. -/
def final (e : Engine) (v : MarketView) : MarketView := (run e e.maxIterations.toNat v).2

/-- The run of a market, as the view at its beginning says. -/
def result (e : Engine) (market : Market) (v : MarketView) : MarketRun :=
  ⟨market, (run e e.maxIterations.toNat v).1.1, (run e e.maxIterations.toNat v).1.2⟩

/-- A run comes to what the view at its beginning says. -/
def Finishes (e : Engine) (market : Market) (v : MarketView) (r : Checked MarketRun)
    (v' : MarketView) : Prop :=
  v' = v.final e ∧ ∃ run, r = .ok run ∧ run.unnamed = v.result e market

theorem leads_marketWork (e : Engine) (market : Market) (v : MarketView) :
    (e.marketWork market).wp (answers market) (fun _ _ => True) Call.Within (Finishes e market v)
      v := by
  refine Work.wp_bind.2 (show Leads market (e.matchMarket market : Task Empty MarketRun) _ v from ?_)
  refine Task.wp_bind.2 (Task.wp_mono (leads_matchRepeatedly e market _ v) ?_)
  rintro _ v' ⟨rfl, trades, rfl, htrades⟩
  refine ⟨rfl, ⟨market, trades, _⟩, rfl, ?_⟩
  rw [MarketRun.unnamed, htrades]
  rfl

end MarketView

end Bourse
