import Bourse.Proofs.Failures.Refused
import Bourse.Proofs.Settlement.Calls

/-!
# The trades in the answer

An order that is placed is answered as it is stored in the end. The answer also holds the trades
that it made at once, all of them and in their order, as long as no call fails with which the order
is matched. When one does, no trade is in the answer, although those that were made before stand. A
failure to settle a trade hides none.
-/

namespace Bourse

/-- A call with which an order is matched. -/
def StoreCall.OfMatching : StoreCall → Prop
  | getOrder _ => True
  | restingOrders _ _ => True
  | commitMatch _ _ _ _ => True
  | _ => False

/-- A call that makes no trade. -/
def Call.NotMatch : Call → Prop
  | .store (.commitMatch _ _ _ _) => False
  | _ => True

theorem Call.OfSettler.notMatch {c : Call} (h : c.OfSettler) : c.NotMatch := by
  cases c with
  | stamp => trivial
  | ledger c => trivial
  | store c => cases c <;> trivial

namespace Trial

open Service

variable {f : Failures} {stamps : ℕ → Stamp} {x : Trial} {id : OrderId} {e : Engine}
  {c : MatchCandidate} {ε δ α β : Type}

/-- What a task comes to, with the trades that it makes and the calls that fail on the way. -/
abbrev Effect (ε α : Type) :=
  Except ε α → List Trade → List (StoreCall × StoreError) → Prop

/-- If nothing overflows, a task has this effect. -/
def Makes (f : Failures) (stamps : ℕ → Stamp) (t : Task ε α) (Q : Effect ε α) : Prop :=
  ∀ x : Trial, wp f stamps t (fun r y => ∀ a, r = .ok a → ∃ trades failures,
    y.store.trades = x.store.trades ++ trades ∧ y.failed = x.failed ++ failures ∧
      Q a trades failures) x

namespace Makes

variable {t : Task ε α} {Q Q' : Effect ε α} {Q₂ : Effect ε β}

theorem mono (ht : Makes f stamps t Q)
    (hQ : ∀ r trades failures, Q r trades failures → Q' r trades failures) :
    Makes f stamps t Q' := by
  refine fun x => Task.wp_mono (ht x) fun r y hr a ha => ?_
  obtain ⟨trades, failures, htrades, hfailed, ha⟩ := hr a ha
  exact ⟨trades, failures, htrades, hfailed, hQ _ _ _ ha⟩

theorem bind {k : α → Task ε β} (ht : Makes f stamps t Q)
    (herror : ∀ e trades failures, Q (.error e) trades failures → Q₂ (.error e) trades failures)
    (hk : ∀ a trades failures, Q (.ok a) trades failures →
      Makes f stamps (k a) fun r trades' failures' =>
        Q₂ r (trades ++ trades') (failures ++ failures')) :
    Makes f stamps (t >>= k) Q₂ := by
  intro x
  refine Task.wp_bind.2 (Task.wp_mono (ht x) ?_)
  rintro (v | err | a) y hr
  · exact fun a h => (by cases h)
  · rintro a h
    cases h
    obtain ⟨trades, failures, htrades, hfailed, hQ⟩ := hr _ rfl
    exact ⟨trades, failures, htrades, hfailed, herror _ _ _ hQ⟩
  · obtain ⟨trades, failures, htrades, hfailed, hQ⟩ := hr _ rfl
    refine Task.wp_mono (hk a trades failures hQ y) fun r z hz b hb => ?_
    obtain ⟨trades', failures', htrades', hfailed', hQ'⟩ := hz b hb
    exact ⟨trades ++ trades', failures ++ failures', by rw [htrades', htrades, List.append_assoc],
      by rw [hfailed', hfailed, List.append_assoc], hQ'⟩

theorem pure {a : α} (h : Q (.ok a) [] []) : Makes f stamps (Pure.pure a) Q := by
  intro x b hb
  cases hb
  exact ⟨[], [], by simp, by simp, h⟩

theorem throw {e : ε} (h : Q (.error e) [] []) : Makes f stamps (MonadExcept.throw e) Q := by
  intro x b hb
  cases hb
  exact ⟨[], [], by simp, by simp, h⟩

theorem ofChecked {a : Checked α} (h : ∀ b, Q (.ok b) [] []) :
    Makes f stamps (Task.ofChecked a) Q := by
  intro x b hb
  cases a with
  | error v => cases hb
  | ok a =>
    cases hb
    exact ⟨[], [], by simp, by simp, h a⟩

theorem attempt (ht : Makes f stamps t Q) :
    Makes f stamps (t.attempt : Task δ _) fun r trades failures =>
      ∃ r', r = .ok r' ∧ Q r' trades failures := by
  refine fun x => Task.wp_attempt.2 (Task.wp_mono (ht x) ?_)
  rintro (v | r) y hr a ha <;> cases ha
  obtain ⟨trades, failures, htrades, hfailed, hQ⟩ := hr r rfl
  exact ⟨trades, failures, htrades, hfailed, r, rfl, hQ⟩

/-- Trades are made by matches only. -/
theorem of_only (ht : t.Only Call.NotMatch) : Makes f stamps t fun _ trades _ => trades = [] := by
  intro x
  refine Task.wp_mono (Work.Only.wp ht (P := fun y : Trial =>
    y.store.trades = x.store.trades ∧ x.failed <+: y.failed) (fun _ _ _ => trivial)
    (fun c y reply z hc hy hz => ?_) ⟨rfl, List.prefix_refl _⟩) ?_
  · unfold Work.Handler.answers Failures.handler at hz
    cases c with
    | stamp =>
      cases hz
      exact hy
    | ledger c =>
      dsimp only at hz
      split at hz <;>
      · cases hz
        exact hy
    | store c =>
      dsimp only at hz
      split at hz
      · cases hz
        exact ⟨hy.1, hy.2.trans (List.prefix_append _ _)⟩
      · cases hz
        refine ⟨Eq.trans ?_ hy.1, hy.2⟩
        have hstep := y.store.ordersStep (stamps y.drawn) c
        cases hstep with
        | unchanged _ htrades => exact htrades
        | inserted _ _ htrades => exact htrades
        | transitioned _ _ _ htrades => exact htrades
        | matched => exact hc.elim
  · rintro r y ⟨htrades, failures, hfailed⟩ a -
    exact ⟨[], failures, by rw [htrades, List.append_nil], hfailed.symm, rfl⟩

end Makes

/-! ### Matching -/

/-- A call with which an order is matched has failed. -/
def Interrupts (failures : List (StoreCall × StoreError)) : Prop :=
  ∃ failure ∈ failures, failure.1.OfMatching

/-- The result tells the trades that were made, and an error comes of a call that failed. -/
def Tells (told : α → List Trade) : Effect StoreError α
  | .ok a, trades, _ => told a = trades
  | .error _, _, failures => Interrupts failures

theorem Interrupts.mono {failures failures' : List (StoreCall × StoreError)}
    (h : Interrupts failures) (hsub : failures ⊆ failures') : Interrupts failures' := by
  obtain ⟨failure, hmem, hc⟩ := h
  exact ⟨failure, hsub hmem, hc⟩

/-- A first part that makes no trades. -/
theorem Makes.tells_bind {t : Task StoreError α} {k : α → Task StoreError β}
    {told : β → List Trade} (ht : Makes f stamps t (Tells fun _ => []))
    (hk : ∀ a, Makes f stamps (k a) (Tells told)) : Makes f stamps (t >>= k) (Tells told) := by
  refine ht.bind (fun e trades failures h => h) fun a trades failures h => (hk a).mono ?_
  rintro (err | b) trades' failures' h'
  · exact Interrupts.mono h' (List.subset_append_right _ _)
  · rw [← show [] = trades from h]
    exact h'

/-- A call of matching that is carried out has an answer, which tells the trade that is made. -/
theorem makes_call {c : StoreCall} (hc : c.OfMatching) {told : c.Answer → List Trade}
    (hdone : ∀ (s : Store) stamp r, (s.perform stamp c).1 = .ok r →
      ∃ a, r = .ok a ∧ (s.perform stamp c).2.trades = s.trades ++ told a) :
    Makes f stamps (Task.store c) (Tells told) := by
  refine fun x => wp_store ?_ ?_
  · intro err y hstore _ hfailed r hr
    cases hr
    exact ⟨[], _, by rw [hstore, List.append_nil], hfailed, _, List.mem_singleton_self _, hc⟩
  · intro stamp y hstore _ hfailed r hr
    obtain ⟨a, rfl, htrades⟩ := hdone x.store stamp r hr
    exact ⟨told a, [], by rw [hstore, htrades], by rw [hfailed, List.append_nil], rfl⟩

/-- The trade that an attempt to match makes. -/
def tradeOf : MatchOutcome → List Trade
  | .executed trade => [trade]
  | .conflict _ => []

theorem makes_commitMatch {maker taker : OrderId} {quantity : Decimal} {fees : FeeSchedule} :
    Makes f stamps (Task.store (.commitMatch maker taker quantity fees)) (Tells tradeOf) := by
  refine makes_call (c := .commitMatch maker taker quantity fees) trivial fun s stamp r hr => ?_
  simp only [Store.perform] at hr ⊢
  obtain ⟨cause, h⟩ | ⟨v, h⟩ | ⟨m, t, mt, hm, ⟨v, -, h⟩ | ⟨record, -, h⟩⟩ :=
    s.commitMatch_cases stamp maker taker quantity fees
  · rw [h] at hr ⊢
    cases hr
    exact ⟨_, rfl, (List.append_nil _).symm⟩
  · rw [h] at hr
    cases hr
  · rw [h] at hr
    cases hr
  · rw [h] at hr ⊢
    cases hr
    exact ⟨_, rfl, rfl⟩

theorem makes_sideOf (market : Market) (side : Side) :
    Makes f stamps (Engine.sideOf market side) (Tells fun _ => []) := by
  have hread : Makes f stamps (Task.store (.restingOrders market side)) (Tells fun _ => []) :=
    makes_call (c := .restingOrders market side) trivial fun s stamp r hr =>
      ⟨_, (Except.ok.inj hr).symm, (List.append_nil _).symm⟩
  exact hread.tells_bind fun orders => .pure rfl

theorem makes_incomingCandidate :
    Makes f stamps (e.incomingCandidate id) (Tells fun _ => []) := by
  have hread : Makes f stamps (Task.store (.getOrder id)) (Tells fun _ => []) :=
    makes_call (c := .getOrder id) trivial fun s stamp r hr =>
      ⟨_, (Except.ok.inj hr).symm, (List.append_nil _).symm⟩
  refine hread.tells_bind fun found => ?_
  cases found with
  | none => exact .pure rfl
  | some o =>
    dsimp only
    split
    · exact (makes_sideOf _ _).tells_bind fun opposite => .pure rfl
    · exact .pure rfl

theorem makes_execute : Makes f stamps (e.execute c) (Tells Option.toList) := by
  refine makes_commitMatch.bind (fun _ _ _ h => h) fun outcome trades failures htrades => ?_
  cases outcome with
  | conflict cause => exact .pure (by rw [List.append_nil]; exact htrades)
  | executed trade =>
    have hsettle : (e.settler.settle trade.id).Only Call.NotMatch :=
      Work.Only.mono (e.settler.only_settle trade.id) fun _ => Call.OfSettler.notMatch
    refine (Makes.of_only hsettle).attempt.bind ?_ ?_
    · rintro err _ _ ⟨r', h, -⟩
      cases h
    · rintro settled trades' failures' ⟨r', -, rfl⟩
      exact .pure (by rw [List.append_nil, List.append_nil]; exact htrades)

theorem makes_matchIncoming : Makes f stamps (e.matchIncoming id) (Tells fun trades => trades) := by
  unfold Engine.matchIncoming
  induction e.maxIterations.toNat with
  | zero => exact .pure rfl
  | succ n ih =>
    refine makes_incomingCandidate.tells_bind fun found => ?_
    cases found with
    | none => exact .pure rfl
    | some c =>
      refine makes_execute.bind (fun _ _ _ h => h) fun traded trades failures htrades => ?_
      cases traded with
      | none => exact .pure (by rw [List.append_nil]; exact htrades)
      | some trade =>
        refine ih.bind (fun _ _ _ h => Interrupts.mono h (List.subset_append_right _ _))
          fun rest trades' failures' h => .pure ?_
        rw [List.append_nil, ← show trade :: [] = trades from htrades,
          ← show rest = trades' from h]
        rfl

/-! ### Placing an order -/

/-- The trades in an answer are those that were made, unless a call of matching failed. -/
def Answers (told : List Trade) (trades : List Trade) (failures : List (StoreCall × StoreError)) :
    Prop :=
  told = trades ∨ told = [] ∧ Interrupts failures

theorem makes_findOrder : Makes f stamps (findOrder id) fun _ trades _ => trades = [] :=
  .of_only (Task.Only.mapError (.store trivial))

theorem makes_confirmIfPending :
    Makes f stamps (confirmIfPending id) fun _ trades _ => trades = [] := by
  have hread : (findOrder id).Only Call.NotMatch := Task.Only.mapError (.store trivial)
  refine .of_only (hread.bind fun found => ?_)
  cases found with
  | none => exact .pure
  | some o =>
    dsimp only
    split
    · have hconfirm : (Task.store (.transitionOrder id .confirm)).Only Call.NotMatch :=
        .store trivial
      refine hconfirm.attempt.bind fun confirmed => ?_
      match confirmed with
      | .ok _ => exact .pure
      | .error (.order _) => exact .pure
      | .error (.orderNotFound _) => exact .pure
      | .error (.duplicateOrder _) => exact .throw
      | .error (.settlementNotFound _) => exact .throw
      | .error (.unavailable _) => exact .throw
    · exact .pure

theorem makes_matchConfirmed : Makes f stamps (matchConfirmed e id) fun r trades failures =>
    ∀ told, r = .ok told → Answers told trades failures := by
  refine makes_matchIncoming.attempt.bind ?_ ?_
  · rintro err trades failures ⟨r', h, -⟩
    cases h
  · rintro answer trades failures ⟨r', h, htells⟩
    cases h
    cases answer with
    | ok told =>
      refine .pure fun told' h => ?_
      cases h
      rw [List.append_nil]
      exact Or.inl htells
    | error err =>
      refine .pure fun told' h => ?_
      cases h
      rw [List.append_nil failures]
      exact Or.inr ⟨rfl, htells⟩

/-- The answer tells the trades that it is given. -/
theorem makes_placement (o : Order) (told : List Trade) :
    Makes f stamps (placement o told) fun r trades _ =>
      trades = [] ∧ ∀ answer, r = .ok answer → answer.trades = told := by
  refine makes_findOrder.bind (fun err trades _ h => ⟨h, fun _ h => (by cases h)⟩)
    fun found trades _ htrades => ?_
  have hmessage : Makes f stamps (Task.ofChecked (found.getD o).statusMessage : Task ServiceError _)
      fun _ trades _ => trades = [] := .ofChecked fun _ => rfl
  refine hmessage.bind (fun err trades' _ h => ⟨?_, fun _ h => (by cases h)⟩)
    fun message trades' _ h => .pure ⟨?_, ?_⟩
  · rw [htrades, h]
    rfl
  · rw [htrades, h]
    rfl
  · rintro answer h
    cases h
    rfl

theorem makes_afterInsertion {o : Order} :
    Makes f stamps (afterInsertion e o) fun r trades failures =>
      ∀ answer, r = .ok answer → Answers answer.trades trades failures := by
  refine makes_confirmIfPending.bind (fun _ _ _ _ _ h => (by cases h))
    fun confirmed trades failures htrades => ?_
  cases confirmed with
  | false =>
    refine (makes_placement o []).mono fun r trades' _ ⟨htrades', hr⟩ answer h => Or.inl ?_
    rw [hr answer h, htrades, htrades']
    rfl
  | true =>
    refine makes_matchConfirmed.bind (fun _ _ _ _ _ h => (by cases h))
      fun told trades' failures' htold => (makes_placement o told).mono ?_
    rintro r trades'' failures'' ⟨htrades'', hr⟩ answer h
    rw [hr answer h, htrades, htrades'', List.nil_append, List.append_nil]
    refine (htold told rfl).imp id fun ⟨hnone, hfails⟩ => ⟨hnone, hfails.mono fun failure h => ?_⟩
    exact List.mem_append_right _ (List.mem_append_left _ h)

/-- The order in the answer is the one that is stored. -/
theorem wp_placement {o : Order} (hx : x.Stores o.id) (told : List Trade) :
    wp f stamps (placement o told) (fun r y => ∀ answer, r = .ok (.ok answer) →
      y.store.orders.find? answer.order.id = some answer.order) x := by
  obtain ⟨p, hp⟩ := hx
  refine Task.wp_bind.2 (Task.wp_mapError.2 (wp_store ?_ ?_))
  · exact fun _ y _ _ _ answer h => (by cases h)
  · intro stamp y hstore _ _
    have hy : y.store.orders.find? p.id = some p := by
      rw [hstore, OrderTable.id_of_find? hp]
      exact hp
    simp only [Store.perform, Store.reply, hp]
    refine Task.wp_bind.2 (Task.wp_ofChecked.2 ?_)
    cases ((some p).getD o).statusMessage with
    | error v => exact fun answer h => (by cases h)
    | ok message =>
      intro answer h
      cases h
      exact hy

theorem wp_afterInsertion {o : Order} (hx : x.Stores o.id) :
    wp f stamps (afterInsertion e o) (fun r y => ∀ answer, r = .ok (.ok answer) →
      y.store.orders.find? answer.order.id = some answer.order) x := by
  refine Task.wp_bind.2 (Task.wp_mono (hx.wp (confirmIfPending o.id)) ?_)
  rintro (v | err | confirmed) y hy
  · exact fun answer h => (by cases h)
  · exact fun answer h => (by cases h)
  cases confirmed with
  | false => exact wp_placement hy []
  | true =>
    refine Task.wp_bind.2 (Task.wp_mono (hy.wp (matchConfirmed e o.id)) ?_)
    rintro (v | err | told) z hz
    · exact fun answer h => (by cases h)
    · exact fun answer h => (by cases h)
    · exact wp_placement hz told

end Trial

/-- An order is placed, and any call may fail. If there is an answer, its order is the one that is
stored in the end, and its trades are those that were added to the store, in their order. If not,
there are none in the answer, and a call with which the order was matched has failed. -/
theorem Service.createOrder_trades (f : Failures) (stamps : ℕ → Stamp) (e : Engine)
    (request : NewOrder) (x : Exchange) {placement : OrderPlacement} {y : Trial}
    (h : Task.Ends (f.handler stamps) (createOrder e request) (.start x) (.ok placement) y) :
    y.store.orders.find? placement.order.id = some placement.order ∧
      ∃ trades, y.store.trades = x.store.trades ++ trades ∧
        (placement.trades = trades ∨
          placement.trades = [] ∧ ∃ failure ∈ y.failed, failure.1.OfMatching) := by
  have hwp : Trial.wp f stamps (createOrder e request) (fun r y => ∀ placement,
      r = .ok (.ok placement) →
        y.store.orders.find? placement.order.id = some placement.order ∧
          ∃ trades, y.store.trades = x.store.trades ++ trades ∧
            (placement.trades = trades ∨
              placement.trades = [] ∧ ∃ failure ∈ y.failed, failure.1.OfMatching)) (.start x) := by
    refine Trial.wp_createOrder (fun v y _ h => (by cases h)) (fun err y _ _ _ h => (by cases h)) ?_
    intro o y hnone horders htrades
    have hy : y.Stores o.id := ⟨o, by rw [horders, OrderTable.find?_put, if_pos rfl]⟩
    refine Work.wp_iff_run.2 fun placement hrun => ⟨?_, ?_⟩
    · exact Work.wp_iff_run.1 (Trial.wp_afterInsertion hy) placement hrun
    · obtain ⟨trades, failures, hmade, hfailed, hanswers⟩ :=
        Work.wp_iff_run.1 (Trial.makes_afterInsertion (f := f) (e := e) y) _ hrun
      refine ⟨trades, by rw [hmade, htrades]; rfl, (hanswers placement rfl).imp id ?_⟩
      rintro ⟨hnone, failure, hmem, hc⟩
      exact ⟨hnone, failure, by rw [hfailed]; exact List.mem_append_right _ hmem, hc⟩
  have hrun := Work.wp_iff_run.1 hwp placement
  rw [show (createOrder e request).work.run (f.handler stamps) (.start x) = _ from h] at hrun
  exact hrun rfl

/-- One user sells five units of gold, and another one has a thousand dollars. -/
def Exchange.fiveForSale : Exchange :=
  let calls : List StoreCall :=
    [.insertOrder (.gold 1 .sell (.ofWord 5) (.ofWord 95) 2), .transitionOrder ⟨.ofNat 1⟩ .confirm]
  ⟨Store.empty.afterCalls (calls.map fun c => (⟨.ofNat 3, .epoch⟩, c)), Exchange.thousand.ledger, 0⟩

/-- The other one asks for eight units. -/
def NewOrder.eightGold : NewOrder :=
  ⟨⟨1⟩, .buy, "XAU/USD", .ofWord 8, .ofWord 95, .spot, none⟩

/-- The trade cannot be claimed for its settlement, but it is told. -/
theorem Service.createOrder_trades_eightGold :
    let e : Engine := ⟨.standard, .create 3 10, 100, false⟩
    let stamps (n : ℕ) : Stamp := ⟨.ofNat (10 + n), .epoch⟩
    let f := Failures.once 9
    let x := Exchange.fiveForSale
    ∃ placement y,
      Task.Ends (f.handler stamps) (createOrder e .eightGold) (.start x) (.ok placement) y ∧
      placement.trades.length = 1 ∧
      y.store.orders.find? placement.order.id = some placement.order ∧
      ∃ trades, y.store.trades = x.store.trades ++ trades ∧
        (placement.trades = trades ∨
          placement.trades = [] ∧ ∃ failure ∈ y.failed, failure.1.OfMatching) := by
  intro e stamps f x
  obtain ⟨placement, hlength, hends⟩ := Task.ends_of_map_eq_ok (h := f.handler stamps)
    (t := createOrder e .eightGold) (x := .start x) (g := fun p => p.trades.length) (b := 1)
    (by decide +kernel)
  exact ⟨placement, _, hends, hlength,
    Service.createOrder_trades f stamps e .eightGold x hends⟩

/-- The order cannot be read again after its first trade. The trade stands, but the answer, which
is no error, has none. -/
theorem Service.createOrder_hides_trade :
    let e : Engine := ⟨.standard, .create 3 10, 100, false⟩
    let stamps (n : ℕ) : Stamp := ⟨.ofNat (10 + n), .epoch⟩
    let f := Failures.once 12
    let x := Exchange.fiveForSale
    ∃ placement y,
      Task.Ends (f.handler stamps) (createOrder e .eightGold) (.start x) (.ok placement) y ∧
      placement.trades = [] ∧ x.store.trades = [] ∧
      y.store.trades.map Trade.quantity = [.ofWord 5] := by
  intro e stamps f x
  obtain ⟨placement, hlength, hends⟩ := Task.ends_of_map_eq_ok (h := f.handler stamps)
    (t := createOrder e .eightGold) (x := .start x) (g := fun p => p.trades.length) (b := 0)
    (by decide +kernel)
  exact ⟨placement, _, hends, List.length_eq_zero_iff.1 hlength, by decide +kernel,
    by decide +kernel⟩

end Bourse
