import Bourse.Proofs.Failures.Placing

/-!
# Requests that fail

A request that fails leaves nothing behind, as long as its order is not stored: the store is as it
was, and so is the ledger, or funds were locked there and unlocked again. An order that is stored
stays, even if the request is answered with an error. That happens only if the order cannot be read
again, or cannot be confirmed for another reason than its own state.
-/

namespace Bourse

namespace Trial

open Service

variable {f : Failures} {stamps : ℕ → Stamp} {x : Trial} {id : OrderId} {α β : Type}

/-- An order with this name is stored. -/
def Stores (id : OrderId) (x : Trial) : Prop := ∃ o, x.store.orders.find? id = some o

/-- The error is that of a call for a stored order: to read it, or to confirm it. -/
def Reports (id : OrderId) (err : ServiceError) (x : Trial) : Prop :=
  ∃ cause, err = .ofStore cause ∧
    ((.getOrder id, cause) ∈ x.failed ∨ (.transitionOrder id .confirm, cause) ∈ x.failed)

/-- Once the order is stored, it stays so, and the task fails only if a call for it does. -/
def FailsFor (f : Failures) (stamps : ℕ → Stamp) (id : OrderId) (t : Task ServiceError α) : Prop :=
  ∀ x : Trial, x.Stores id → wp f stamps t
    (fun r y => y.Stores id ∧ ∀ err, r = .ok (.error err) → y.Reports id err) x

/-- Orders are never removed. -/
theorem Stores.perform {s : Store} (h : ∃ o, s.orders.find? id = some o) (stamp : Stamp)
    (c : StoreCall) : ∃ o, (s.perform stamp c).2.orders.find? id = some o := by
  obtain ⟨o, ho⟩ := h
  obtain ⟨hmem, rfl⟩ := OrderTable.find?_eq_some_iff.1 ho
  obtain ⟨p, hp, rfl | hchanges⟩ := Store.exists_after_perform stamp c hmem
  · exact ⟨p, OrderTable.find?_of_mem hp⟩
  · exact ⟨p, hchanges.sameTerms.id_eq ▸ OrderTable.find?_of_mem hp⟩

/-- Whatever is done, a stored order stays. -/
theorem Stores.wp {ε : Type} (hx : x.Stores id) (t : Task ε α) :
    wp f stamps t (fun _ y => y.Stores id) x := by
  refine (Work.only_of_forall (p := fun _ => True) fun _ => trivial).wp (P := Stores id)
    (fun _ _ _ => trivial) (fun c y reply z _ hy hz => ?_) hx
  unfold Work.Handler.answers Failures.handler at hz
  cases c with
  | stamp =>
    cases hz
    exact hy
  | store c =>
    dsimp only at hz
    split at hz
    · cases hz
      exact hy
    · cases hz
      exact Stores.perform hy _ c
  | ledger c =>
    dsimp only at hz
    split at hz <;>
    · cases hz
      exact hy

namespace FailsFor

theorem bind {t : Task ServiceError α} {k : α → Task ServiceError β} (ht : FailsFor f stamps id t)
    (hk : ∀ a, FailsFor f stamps id (k a)) : FailsFor f stamps id (t >>= k) := by
  intro x hx
  refine Task.wp_bind.2 (Task.wp_mono (ht x hx) ?_)
  rintro (v | err | a) y ⟨hy, herr⟩
  · exact ⟨hy, fun err h => (by cases h)⟩
  · refine ⟨hy, fun err' h => herr err' ?_⟩
    cases h
    rfl
  · exact hk a y hy

theorem pure (a : α) : FailsFor f stamps id (Pure.pure a) :=
  fun _ hx => ⟨hx, fun _ h => (by cases h)⟩

theorem ofChecked (a : Checked α) : FailsFor f stamps id (Task.ofChecked a) := by
  refine fun _ hx => Task.wp_ofChecked.2 ⟨hx, fun err h => ?_⟩
  cases a <;> cases h

/-- A failure that is caught is not reported. -/
theorem attempt {ε : Type} (t : Task ε α) :
    FailsFor f stamps id (t.attempt : Task ServiceError _) := by
  refine fun x hx => Task.wp_attempt.2 (Task.wp_mono (hx.wp t) ?_)
  rintro (v | r) y hy <;> exact ⟨hy, fun err h => (by cases h)⟩

theorem findOrder : FailsFor f stamps id (findOrder id) := by
  refine fun x hx => Task.wp_mapError.2 (wp_store ?_ ?_)
  · intro e y hstore _ hfailed
    refine ⟨by rwa [Stores, hstore], fun err h => ⟨e, ?_, Or.inl (by rw [hfailed]; simp)⟩⟩
    cases h
    rfl
  · intro stamp y hstore _ _
    exact ⟨by rwa [Stores, hstore], fun err h => (by cases h)⟩

/-- That an order is no longer pending, or not there, is no failure. -/
theorem confirmIfPending : FailsFor f stamps id (confirmIfPending id) := by
  refine findOrder.bind fun found => ?_
  cases found with
  | none => exact .pure false
  | some o =>
    dsimp only
    split
    · refine fun x hx => Task.wp_bind.2 (Task.wp_attempt.2 (wp_store ?_ ?_))
      · intro e y hstore _ hfailed
        have hy : y.Stores id := by rwa [Stores, hstore]
        have hreports : y.Reports id (.ofStore e) :=
          ⟨e, rfl, Or.inr (by rw [hfailed]; simp)⟩
        have hthrow : wp f stamps (throw (.ofStore e) : Task ServiceError Bool)
            (fun r y => y.Stores id ∧ ∀ err, r = .ok (.error err) → y.Reports id err) y := by
          refine Task.wp_throw.2 ⟨hy, fun err h => ?_⟩
          cases h
          exact hreports
        match e with
        | .order _ => exact FailsFor.pure false y hy
        | .orderNotFound _ => exact FailsFor.pure false y hy
        | .duplicateOrder _ => exact hthrow
        | .settlementNotFound _ => exact hthrow
        | .unavailable _ => exact hthrow
      · intro stamp y hstore _ _
        have hy : y.Stores id := by
          rw [Stores, hstore]
          exact Stores.perform hx stamp _
        simp only [Store.perform, Store.transitionOrder]
        cases x.store.orders.find? id with
        | none => exact FailsFor.pure false y hy
        | some p =>
          dsimp only
          cases Transition.confirm.apply p stamp.time with
          | error cause => exact FailsFor.pure false y hy
          | ok p' => exact FailsFor.pure true y hy
    · exact .pure false

theorem placement (o : Order) (trades : List Trade) :
    FailsFor f stamps o.id (placement o trades) :=
  findOrder.bind fun _ => (ofChecked _).bind fun _ => .pure _

theorem afterInsertion (e : Engine) (o : Order) :
    FailsFor f stamps o.id (afterInsertion e o) := by
  refine confirmIfPending.bind fun confirmed => ?_
  cases confirmed with
  | false => exact placement o []
  | true =>
    have hmatch : FailsFor f stamps o.id (matchConfirmed e o.id) := by
      refine (attempt _).bind fun answer => ?_
      cases answer with
      | ok trades => exact .pure trades
      | error err => exact .pure []
    exact hmatch.bind fun trades => placement o trades

end FailsFor

end Trial

/-- Nothing is left of a request: the store is as it was, and so is the ledger, or funds were locked
there and unlocked again. If it was exact to lock them, and the user did not owe any, everyone holds
what they held. -/
structure Exchange.Undone (x y : Exchange) : Prop where
  store_eq : y.store = x.store
  ledger : y.ledger = x.ledger ∨ ∃ user asset amount,
    x.ledger.Returns user asset amount y.ledger ∧
    (x.ledger.ComputesExactly (.call (.lock user asset amount)) →
      0 ≤ (x.ledger.balance (.locked user asset)).toRat → y.ledger.holdings = x.ledger.holdings)

/-- If no call to unlock funds fails, no funds stay locked. -/
theorem Refunds.untouched_or_returned {f : Failures} {l l' : Ledger} (h : Refunds f l l')
    (hunlock : ∀ n user asset amount, f.ledger n (.unlock user asset amount) = none) :
    l' = l ∨ ∃ user asset amount, l.Returns user asset amount l' := by
  cases h with
  | untouched => exact Or.inl rfl
  | returned returns => exact Or.inr ⟨_, _, _, returns⟩
  | stuck n locks failed =>
    rw [hunlock] at failed
    cases failed

/-- An order is placed and the answer is an error. Any call but one to unlock funds may fail. Then
nothing is left, or the order is stored and the error is that of a call for it. -/
theorem Service.createOrder_error {f : Failures}
    (hunlock : ∀ n user asset amount, f.ledger n (.unlock user asset amount) = none)
    (stamps : ℕ → Stamp) (e : Engine) (request : NewOrder) (x : Exchange) {err : ServiceError}
    {y : Trial}
    (h : Task.Ends (f.handler stamps) (createOrder e request) (.start x) (.error err) y) :
    x.Undone y.toExchange ∨
      ∃ id, x.store.orders.find? id = none ∧ y.Stores id ∧ y.Reports id err := by
  have hwp : Trial.wp f stamps (createOrder e request) (fun r y => ∀ err, r = .ok (.error err) →
      x.Undone y.toExchange ∨
        ∃ id, x.store.orders.find? id = none ∧ y.Stores id ∧ y.Reports id err) (.start x) := by
    refine Trial.wp_createOrder (fun v y err h => (by cases h)) ?_ ?_
    · intro err y hstore hrefunds err' _
      refine Or.inl ⟨hstore, ?_⟩
      obtain hsame | ⟨user, asset, amount, hreturns⟩ := hrefunds.untouched_or_returned hunlock
      · exact Or.inl hsame
      · exact Or.inr ⟨user, asset, amount, hreturns, hreturns.holdings_eq⟩
    · intro o y hnone horders _
      have hy : y.Stores o.id := ⟨o, by rw [horders, OrderTable.find?_put, if_pos rfl]⟩
      exact Task.wp_mono (Trial.FailsFor.afterInsertion e o y hy) fun r z hz err herr =>
        Or.inr ⟨o.id, hnone, hz.1, hz.2 err herr⟩
  have hrun := Work.wp_iff_run.1 hwp err
  rw [show (createOrder e request).work.run (f.handler stamps) (.start x) = _ from h] at hrun
  exact hrun rfl

/-- One call to the store fails, the one with this number. -/
def Failures.once (n : ℕ) : Failures where
  store m _ := if m = n then some (.unavailable "down") else none
  ledger _ _ := none

/-- A user has a thousand dollars. -/
def Exchange.thousand : Exchange :=
  ⟨Store.empty, (Ledger.empty.deposit ⟨1⟩ "USD" (.ofWord 1000)).2, 0⟩

/-- The user asks for ten units of gold, and has just the funds for them. -/
def NewOrder.tenGold : NewOrder :=
  ⟨⟨1⟩, .buy, "XAU/USD", .ofWord 10, .ofWord 100, .spot, none⟩

/-- The order cannot be stored. -/
theorem Service.createOrder_error_tenGold :
    let e : Engine := ⟨.standard, .create 3 10, 100, false⟩
    let stamps (n : ℕ) : Stamp := ⟨.ofNat (10 + n), .epoch⟩
    let f := Failures.once 3
    (∀ n user asset amount, f.ledger n (.unlock user asset amount) = none) ∧
    ∃ err y, Task.Ends (f.handler stamps) (createOrder e .tenGold) (.start .thousand)
        (.error err) y ∧
      y.ledger.wallet ⟨1⟩ "USD" = ⟨⟨1⟩, "USD", .ofWord 1000, .zero⟩ ∧
      (Exchange.thousand.Undone y.toExchange ∨ ∃ id,
        Exchange.thousand.store.orders.find? id = none ∧ y.Stores id ∧ y.Reports id err) := by
  intro e stamps f
  have hunlock : ∀ n user asset amount, f.ledger n (.unlock user asset amount) = none :=
    fun _ _ _ _ => rfl
  have hends := Task.ends_of_map_eq_error (h := f.handler stamps) (t := createOrder e .tenGold)
    (x := .start .thousand) (g := fun _ => ()) (e := .store (.unavailable "down"))
    (by decide +kernel)
  exact ⟨hunlock, _, _, hends, by decide +kernel,
    Service.createOrder_error hunlock stamps e .tenGold .thousand hends⟩

/-- The order is stored and cannot be read again. The answer is an error, but the order stays and
its funds are locked. -/
theorem Service.createOrder_error_leaves_order :
    let e : Engine := ⟨.standard, .create 3 10, 100, false⟩
    let stamps (n : ℕ) : Stamp := ⟨.ofNat (10 + n), .epoch⟩
    let f := Failures.once 4
    let x := Exchange.thousand
    (∀ n user asset amount, f.ledger n (.unlock user asset amount) = none) ∧
    ∃ err y, Task.Ends (f.handler stamps) (createOrder e .tenGold) (.start x) (.error err) y ∧
      x.store.orders.entries = [] ∧
      y.store.orders.entries.map Order.status = [.pending] ∧
      x.ledger.wallet ⟨1⟩ "USD" = ⟨⟨1⟩, "USD", .ofWord 1000, .zero⟩ ∧
      y.ledger.wallet ⟨1⟩ "USD" = ⟨⟨1⟩, "USD", .zero, .ofWord 1000⟩ := by
  intro e stamps f x
  have hends := Task.ends_of_map_eq_error (h := f.handler stamps) (t := createOrder e .tenGold)
    (x := .start x) (g := fun _ => ()) (e := .store (.unavailable "down"))
    (by decide +kernel)
  exact ⟨fun _ _ _ _ => rfl, _, _, hends, rfl, by decide +kernel, by decide +kernel,
    by decide +kernel⟩

end Bourse
