import Bourse.Exchange
import Bourse.Proofs.Ledger.Atomic
import Bourse.Proofs.Matching.BestMatch
import Bourse.Proofs.Matching.Timeless
import Bourse.Proofs.Service
import Bourse.Proofs.Settlement.Outbox

/-!
# Cancelling all orders of a user

Cancelling all orders of a user comes to the same as cancelling them one by one, the earliest first.
The funds of an order are unlocked right after it is cancelled. If they cannot be unlocked they stay
locked, and the work goes on. But if there is no room for them it ends there, and the orders that
are still to come stay as they are.
-/

namespace Bourse

/-- The order after it is cancelled. -/
def Order.cancelled (o : Order) (reason : String) (now : Instant) : Order :=
  { o with
    status := .cancelled
    notes := if Text.isBlankText reason then o.notes else some (Text.trimmed reason)
    updatedAt := some now }

theorem Order.cancel_eq_ok {o : Order} (h : o.status.isCancellable = true) (reason : String)
    (now : Instant) : o.cancel reason now = .ok (o.cancelled reason now) :=
  cancel_eq_ok_iff.2 ⟨h, rfl⟩

theorem OrderStatus.isCancellable_iff {status : OrderStatus} :
    status.isCancellable = true ↔ status = .pending ∨ status = .confirmed := by
  cases status <;> decide

/-! ### Funds that are released -/

namespace Ledger

variable {l : Ledger} {o : Order}

/-- Unlocks what is left of an order's funds. If that is refused, they stay locked. -/
def release (l : Ledger) (o : Order) : Checked Unit × Ledger :=
  if o.remaining.isZero then (.ok (), l)
  else
    match o.reserveFor o.remaining with
    | .error _ => (.ok (), l)
    | .ok reserve =>
      let result := l.unlock o.userId reserve.asset reserve.amount
      (result.1.map fun _ => (), result.2)

/-- What is left of an order's funds has room among what is available to its user, if it is locked
at all. -/
def HasRoomFor (l : Ledger) (o : Order) : Prop :=
  o.remaining.isZero = false → ∀ reserve, o.reserveFor o.remaining = .ok reserve →
    reserve.amount.isPos = true → reserve.amount ≤ l.balance (.locked o.userId reserve.asset) →
    |(l.balance (.available o.userId reserve.asset)).toRat + reserve.amount.toRat| <
      Decimal.bound - 1 / 2

/-- One after the other, several orders find room for what is left of their funds. -/
def HasRoomForAll (l : Ledger) : List Order → Prop
  | [] => True
  | o :: rest => l.HasRoomFor o ∧ (l.release o).2.HasRoomForAll rest

theorem release_eq_ok_iff : (l.release o).1 = .ok () ↔ l.HasRoomFor o := by
  unfold release HasRoomFor
  split
  · rename_i hzero
    simp [hzero]
  · rename_i hzero
    rw [Bool.not_eq_true] at hzero
    cases hreserve : o.reserveFor o.remaining with
    | error e => simp
    | ok reserve =>
      dsimp only
      cases hunlock : l.unlock o.userId reserve.asset reserve.amount with
      | mk answer l' =>
        cases answer with
        | error e =>
          obtain ⟨⟨hpos, henough⟩, -, hfull, -⟩ := unlock_eq_error_iff.1 hunlock
          refine iff_of_false (fun h => by cases h) fun hroom => not_lt.2 hfull ?_
          exact hroom hzero reserve rfl hpos (Decimal.le_iff.2 (Decimal.not_lt_iff.1 henough))
        | ok r =>
          refine iff_of_true rfl fun _ reserve' hsame hpos henough => ?_
          cases hsame
          by_contra hfull
          obtain ⟨rest, hrest, -, -⟩ := Decimal.sub_between (Decimal.isPos_iff.1 hpos).le
            (Decimal.le_iff.1 henough)
          have hoverflow := unlock_eq_error_iff.2 ⟨⟨hpos, Decimal.not_lt_iff.2
            (Decimal.le_iff.1 henough)⟩, rfl, not_lt.1 hfull, rest, hrest, rfl⟩
          cases hunlock.symm.trans hoverflow

instance (l : Ledger) (o : Order) : Decidable (l.HasRoomFor o) :=
  decidable_of_iff _ release_eq_ok_iff

instance decidableHasRoomForAll :
    (orders : List Order) → (l : Ledger) → Decidable (l.HasRoomForAll orders)
  | [], _ => .isTrue trivial
  | o :: rest, l =>
    have := decidableHasRoomForAll rest
    inferInstanceAs (Decidable (l.HasRoomFor o ∧ (l.release o).2.HasRoomForAll rest))

theorem release_cancelled (l : Ledger) (o : Order) (reason : String) (now : Instant) :
    l.release (o.cancelled reason now) = l.release o := rfl

end Ledger

/-! ### Orders that can be cancelled -/

namespace Store

variable {s s' : Store} {o : Order} {user : UserId} {reason : String} {orders answer : List Order}

theorem mem_cancellableOrders_iff : o ∈ s.cancellableOrders user ↔
    o ∈ s.orders.entries ∧ o.userId = user ∧ (o.status = .pending ∨ o.status = .confirmed) := by
  rw [cancellableOrders, List.mem_mergeSort, List.mem_filter, Bool.and_eq_true, decide_eq_true_eq,
    OrderStatus.isCancellable_iff]

/-- A list of the orders of a user that can be cancelled, each once, the earliest first. -/
structure IsCancelList (s : Store) (user : UserId) (orders : List Order) : Prop where
  nodup : orders.Nodup
  mem_iff : ∀ o, o ∈ orders ↔
    o ∈ s.orders.entries ∧ o.userId = user ∧ (o.status = .pending ∨ o.status = .confirmed)
  earliest_first : orders.Pairwise fun a b => ¬b.CameBefore a

theorem isCancelList (s : Store) (user : UserId) :
    s.IsCancelList user (s.cancellableOrders user) where
  nodup := (List.mergeSort_perm _ _).nodup_iff.2 (s.orders.nodup_entries.filter _)
  mem_iff _ := mem_cancellableOrders_iff
  earliest_first := (pairwise_mergeSort_key sortsBy_timeLe _).imp fun h =>
    timeLe_iff_not_cameBefore.1 ((sortsBy_timeLe _ _).2 h)

theorem cancellableOrders_eq_nil
    (h : ∀ o ∈ s.orders.entries, o.userId = user → o.status ≠ .pending ∧ o.status ≠ .confirmed) :
    s.cancellableOrders user = [] := by
  refine List.eq_nil_iff_forall_not_mem.2 fun o ho => ?_
  obtain ⟨ho, huser, hstatus⟩ := mem_cancellableOrders_iff.1 ho
  exact hstatus.elim (h o ho huser).1 (h o ho huser).2

/-- All of the given orders are cancelled, and nothing else has changed in the store. -/
structure CancelsAll (s : Store) (orders : List Order) (reason : String) (answer : List Order)
    (s' : Store) : Prop where
  cancelled : List.Forall₂ (fun o c => ∃ now, o.cancel reason now = .ok c) orders answer
  stored : ∀ c ∈ answer, s'.orders.find? c.id = some c
  others : ∀ id, id ∉ orders.map Order.id → s'.orders.find? id = s.orders.find? id
  trades_eq : s'.trades = s.trades
  settlements_eq : s'.settlements = s.settlements
  nextSequence_eq : s'.nextSequence = s.nextSequence

namespace CancelsAll

theorem exists_cancelled (h : CancelsAll s orders reason answer s') (ho : o ∈ orders) :
    ∃ c ∈ answer, ∃ now, o.cancel reason now = .ok c := by
  have hcancelled := h.cancelled
  clear h
  induction hcancelled with
  | nil => cases ho
  | cons hfirst _ ih =>
    rcases List.mem_cons.1 ho with rfl | ho
    · exact ⟨_, List.mem_cons_self, hfirst⟩
    · obtain ⟨c, hc, hcancel⟩ := ih ho
      exact ⟨c, List.mem_cons_of_mem _ hc, hcancel⟩

/-- Once all orders of a user are cancelled there are none left to be cancelled. -/
theorem not_cancellable (h : CancelsAll s (s.cancellableOrders user) reason answer s') :
    ∀ o ∈ s'.orders.entries, o.userId = user → o.status ≠ .pending ∧ o.status ≠ .confirmed := by
  intro o ho huser
  have hfind := OrderTable.find?_of_mem ho
  by_cases hid : o.id ∈ (s.cancellableOrders user).map Order.id
  · obtain ⟨p, hp, hpo⟩ := List.mem_map.1 hid
    obtain ⟨c, hc, now, hcancel⟩ := h.exists_cancelled hp
    obtain ⟨-, rfl⟩ := Order.cancel_eq_ok_iff.1 hcancel
    have hstored := h.stored _ hc
    dsimp only at hstored
    rw [hpo, hfind] at hstored
    rw [Option.some.inj hstored]
    exact ⟨by simp, by simp⟩
  · rw [h.others _ hid] at hfind
    have hmem := OrderTable.mem_of_find? hfind
    rw [← not_or]
    exact fun hstatus => hid (List.mem_map_of_mem
      (mem_cancellableOrders_iff.2 ⟨hmem, huser, hstatus⟩))

end CancelsAll

end Store

/-! ### Cancelling in turn -/

namespace Exchange

variable {stamps : ℕ → Stamp} {x : Exchange} {o : Order} {user : UserId} {reason : String}

theorem run_unlockReserve (x : Exchange) (user : UserId) (reserve : Reserve) :
    (Service.unlockReserve user reserve).work.run (handler stamps) x =
      ((x.ledger.unlock user reserve.asset reserve.amount).1.map fun _ => .ok (),
        { x with ledger := (x.ledger.unlock user reserve.asset reserve.amount).2 }) := by
  have hcall : (Task.ledger (.unlock user reserve.asset reserve.amount)).work.run
      (handler stamps) x =
        ((x.ledger.unlock user reserve.asset reserve.amount).1,
          { x with ledger := (x.ledger.unlock user reserve.asset reserve.amount).2 }) := rfl
  unfold Service.unlockReserve
  rw [Task.run_bind, Task.run_attempt, hcall]
  cases (x.ledger.unlock user reserve.asset reserve.amount).1 <;> rfl

theorem run_releaseReserve (x : Exchange) (o : Order) :
    (Service.releaseReserve o).work.run (handler stamps) x =
      ((x.ledger.release o).1.map .ok, { x with ledger := (x.ledger.release o).2 }) := by
  unfold Service.releaseReserve Ledger.release
  split
  · rfl
  · cases o.reserveFor o.remaining with
    | error e => rfl
    | ok reserve =>
      refine (run_unlockReserve x o.userId reserve).trans ?_
      dsimp only
      cases (x.ledger.unlock o.userId reserve.asset reserve.amount).1 <;> rfl

/-- The store after an order is cancelled, and the ledger after its funds are released. -/
def afterCancel (x : Exchange) (c : Order) (drawn : ℕ) : Exchange :=
  ⟨{ x.store with orders := x.store.orders.put c }, (x.ledger.release c).2, drawn⟩

theorem run_release (x : Exchange) (c : Order) (drawn : ℕ) :
    (Service.releaseReserve c).work.run (handler stamps)
        ⟨{ x.store with orders := x.store.orders.put c }, x.ledger, drawn⟩ =
      ((x.ledger.release c).1.map .ok, x.afterCancel c drawn) :=
  run_releaseReserve _ c

/-- Cancels orders one after the other, up to the first whose funds have no room. A few stamps go by
in between. -/
def cancelInTurn (stamps : ℕ → Stamp) (pause : ℕ) (reason : String) (x : Exchange) :
    List Order → Checked (List Order) × Exchange
  | [] => (.ok [], x)
  | o :: rest =>
    let c := o.cancelled reason (stamps (x.drawn + pause)).time
    let x' := x.afterCancel c (x.drawn + pause + 1)
    match (x.ledger.release c).1 with
    | .error e => (.error e, x')
    | .ok _ =>
      let others := x'.cancelInTurn stamps pause reason rest
      (others.1.map (c :: ·), others.2)

/-- Different orders of a user, each stored and in a status in which it can be cancelled. -/
structure Cancellable (x : Exchange) (user : UserId) (orders : List Order) : Prop where
  ids_nodup : (orders.map Order.id).Nodup
  found : ∀ o ∈ orders, x.store.orders.find? o.id = some o
  owned : ∀ o ∈ orders, o.userId = user
  cancellable : ∀ o ∈ orders, o.status.isCancellable = true

theorem ends_cancel (hfound : x.store.orders.find? o.id = some o)
    (hcancellable : o.status.isCancellable = true) :
    Task.Ends (handler stamps) (Task.store (.transitionOrder o.id (.cancel reason))) x
      (.ok (o.cancelled reason (stamps x.drawn).time))
      ⟨{ x.store with orders := x.store.orders.put (o.cancelled reason (stamps x.drawn).time) },
        x.ledger, x.drawn + 1⟩ := by
  have hcancel : Transition.apply (.cancel reason) o (stamps x.drawn).time =
      .ok (o.cancelled reason (stamps x.drawn).time) :=
    Order.cancel_eq_ok hcancellable _ _
  have hperform : x.store.perform (stamps x.drawn) (.transitionOrder o.id (.cancel reason)) =
      (.ok (.ok (o.cancelled reason (stamps x.drawn).time)), { x.store with
        orders := x.store.orders.put (o.cancelled reason (stamps x.drawn).time) }) := by
    rw [Store.perform, Store.transitionOrder, hfound]
    dsimp only
    rw [hcancel]
    rfl
  show ((x.store.perform (stamps x.drawn) (.transitionOrder o.id (.cancel reason))).1,
    { x with
      store := (x.store.perform (stamps x.drawn) (.transitionOrder o.id (.cancel reason))).2
      drawn := x.drawn + 1 }) = _
  rw [hperform]

section Cancellable

variable {rest : List Order} (h : x.Cancellable user (o :: rest))

include h

/-- Cancelling one order leaves the others to be cancelled. -/
theorem Cancellable.tail (reason : String) (now : Instant) (drawn : ℕ) :
    (x.afterCancel (o.cancelled reason now) drawn).Cancellable user rest := by
  obtain ⟨hids, hfound, howned, hcancellable⟩ := h
  rw [List.map_cons, List.nodup_cons] at hids
  refine ⟨hids.2, fun p hp => ?_, fun p hp => howned p (List.mem_cons_of_mem _ hp),
    fun p hp => hcancellable p (List.mem_cons_of_mem _ hp)⟩
  have hne : o.id ≠ p.id := fun hsame => hids.1 (List.mem_map.2 ⟨p, hp, hsame.symm⟩)
  show (x.store.orders.put _).find? p.id = some p
  rw [OrderTable.find?_put]
  exact (if_neg hne).trans (hfound p (List.mem_cons_of_mem _ hp))

theorem Cancellable.run_cancelOrder :
    (Service.cancelOrder o.id user reason).work.run (handler stamps) x =
      let c := o.cancelled reason (stamps (x.drawn + 1)).time
      ((x.ledger.release c).1.map fun _ => .ok c, x.afterCancel c (x.drawn + 2)) := by
  have hget : Task.Ends (handler stamps) (Service.getOrder o.id) x (.ok o)
      { x with drawn := x.drawn + 1 } := by
    have hfind : Task.Ends (handler stamps) (Service.findOrder o.id) x (.ok (some o))
        { x with drawn := x.drawn + 1 } := by
      rw [← h.found o List.mem_cons_self]
      rfl
    exact hfind.bind Task.Ends.pure
  have howned : ¬o.userId ≠ user := not_not.2 (h.owned o List.mem_cons_self)
  have hcancellable := h.cancellable o List.mem_cons_self
  have hcancel : Task.Ends (handler stamps)
      (Service.store (.transitionOrder o.id (.cancel reason)) : Task ServiceError Order)
      { x with drawn := x.drawn + 1 } (.ok (o.cancelled reason (stamps (x.drawn + 1)).time)) _ :=
    (ends_cancel (x := { x with drawn := x.drawn + 1 }) (h.found o List.mem_cons_self)
      hcancellable).mapError
  rw [Service.cancelOrder, hget.run_bind, if_neg howned]
  dsimp only
  rw [if_pos hcancellable]
  refine hcancel.run_bind.trans ?_
  rw [Task.run_bind, run_release { x with drawn := x.drawn + 1 }]
  cases (x.ledger.release (o.cancelled reason (stamps (x.drawn + 1)).time)).1 <;> rfl

end Cancellable

theorem run_cancelEach {orders : List Order} (h : x.Cancellable user orders) :
    (Service.cancelEach reason orders).work.run (handler stamps) x =
      ((x.cancelInTurn stamps 0 reason orders).1.map .ok,
        (x.cancelInTurn stamps 0 reason orders).2) := by
  induction orders generalizing x with
  | nil => rfl
  | cons o rest ih =>
    have hrest := ih (h.tail reason (stamps x.drawn).time (x.drawn + 1))
    rw [Service.cancelEach, Task.Ends.run_bind (ends_cancel (h.found o List.mem_cons_self)
      (h.cancellable o List.mem_cons_self)).attempt]
    dsimp only
    rw [Task.run_bind, run_release, cancelInTurn]
    dsimp only [Nat.add_zero]
    cases (x.ledger.release (o.cancelled reason (stamps x.drawn).time)).1 with
    | error e => rfl
    | ok u =>
      dsimp only [Except.map]
      rw [Task.run_bind, hrest]
      cases ((x.afterCancel (o.cancelled reason (stamps x.drawn).time)
        (x.drawn + 1)).cancelInTurn stamps 0 reason rest).1 <;> rfl

theorem run_mapM_cancelOrder {orders : List Order} (h : x.Cancellable user orders) :
    (orders.mapM fun o => Service.cancelOrder o.id user reason).work.run (handler stamps) x =
      ((x.cancelInTurn stamps 1 reason orders).1.map .ok,
        (x.cancelInTurn stamps 1 reason orders).2) := by
  induction orders generalizing x with
  | nil => rfl
  | cons o rest ih =>
    have hrest := ih (h.tail reason (stamps (x.drawn + 1)).time (x.drawn + 2))
    rw [List.mapM_cons, Task.run_bind, h.run_cancelOrder, cancelInTurn]
    dsimp only
    cases (x.ledger.release (o.cancelled reason (stamps (x.drawn + 1)).time)).1 with
    | error e => rfl
    | ok u =>
      dsimp only [Except.map]
      rw [Task.run_bind, hrest]
      cases ((x.afterCancel (o.cancelled reason (stamps (x.drawn + 1)).time)
        (x.drawn + 2)).cancelInTurn stamps 1 reason rest).1 <;> rfl

/-! ### What cancelling in turn comes to -/

variable {y : Exchange} {orders answer : List Order} {pause pause' : ℕ} {stamps' : ℕ → Stamp}

/-- The two are the same but for the times at which orders were changed. -/
structure SameButTimes (x y : Exchange) : Prop where
  orders : x.store.SameOrders y.store
  trades_eq : x.store.trades = y.store.trades
  settlements_eq : x.store.settlements = y.store.settlements
  nextSequence_eq : x.store.nextSequence = y.store.nextSequence
  ledger_eq : x.ledger = y.ledger

theorem SameButTimes.afterCancel (h : x.SameButTimes y) {c c' : Order}
    (hc : c.timeless = c'.timeless) (drawn drawn' : ℕ) :
    (x.afterCancel c drawn).SameButTimes (y.afterCancel c' drawn') where
  orders := h.orders.put hc
  trades_eq := h.trades_eq
  settlements_eq := h.settlements_eq
  nextSequence_eq := h.nextSequence_eq
  ledger_eq := by
    have hrelease : ∀ l : Ledger, l.release c = l.release c.timeless := fun _ => rfl
    show (x.ledger.release c).2 = (y.ledger.release c').2
    rw [h.ledger_eq, hrelease, hc]
    rfl

/-- By induction on the orders: each is the same in both when its turn comes. -/
theorem SameButTimes.cancelInTurn (h : x.SameButTimes y) (stamps stamps' : ℕ → Stamp)
    (pause pause' : ℕ) (reason : String) (orders : List Order) :
    (x.cancelInTurn stamps pause reason orders).1.map (List.map Order.timeless) =
        (y.cancelInTurn stamps' pause' reason orders).1.map (List.map Order.timeless) ∧
      (x.cancelInTurn stamps pause reason orders).2.SameButTimes
        (y.cancelInTurn stamps' pause' reason orders).2 := by
  induction orders generalizing x y with
  | nil => exact ⟨rfl, h⟩
  | cons o rest ih =>
    have htimes : (o.cancelled reason (stamps (x.drawn + pause)).time).timeless =
        (o.cancelled reason (stamps' (y.drawn + pause')).time).timeless := rfl
    have hnext := h.afterCancel htimes (x.drawn + pause + 1) (y.drawn + pause' + 1)
    obtain ⟨hanswer, hafter⟩ := ih hnext
    rw [Exchange.cancelInTurn, Exchange.cancelInTurn, Ledger.release_cancelled,
      Ledger.release_cancelled, h.ledger_eq]
    cases (y.ledger.release o).1 with
    | error e => exact ⟨rfl, hnext⟩
    | ok u =>
      have hcons : ∀ (c : Order) (r : Checked (List Order)),
          (r.map (c :: ·)).map (List.map Order.timeless) =
            (r.map (List.map Order.timeless)).map (c.timeless :: ·) := by
        rintro c (_ | _) <;> rfl
      refine ⟨?_, hafter⟩
      dsimp only
      rw [hcons, hcons, hanswer]
      rfl

/-- Orders are cancelled to the last just if each finds room for its funds in its turn. -/
theorem exists_cancelInTurn_iff :
    (∃ answer, (x.cancelInTurn stamps pause reason orders).1 = .ok answer) ↔
      x.ledger.HasRoomForAll orders := by
  induction orders generalizing x with
  | nil => exact iff_of_true ⟨[], rfl⟩ trivial
  | cons o rest ih =>
    rw [Ledger.HasRoomForAll, ← Ledger.release_eq_ok_iff, cancelInTurn, Ledger.release_cancelled]
    cases (x.ledger.release o).1 with
    | error e => simp
    | ok u =>
      have hmap : ∀ (c : Order) (r : Checked (List Order)),
          (∃ answer, r.map (c :: ·) = .ok answer) ↔ ∃ answer, r = .ok answer := by
        rintro c (_ | _) <;> simp [Except.map]
      exact (hmap _ _).trans (ih.trans (and_iff_right rfl).symm)

theorem cancelInTurn_cons_eq_ok {rest : List Order}
    (hok : (x.cancelInTurn stamps pause reason (o :: rest)).1 = .ok answer) :
    let c := o.cancelled reason (stamps (x.drawn + pause)).time
    let x' := x.afterCancel c (x.drawn + pause + 1)
    ∃ others, answer = c :: others ∧ (x'.cancelInTurn stamps pause reason rest).1 = .ok others ∧
      x.cancelInTurn stamps pause reason (o :: rest) =
        (.ok answer, (x'.cancelInTurn stamps pause reason rest).2) := by
  intro c x'
  have hrun : x.cancelInTurn stamps pause reason (o :: rest) =
      match (x.ledger.release c).1 with
      | .error e => (.error e, x')
      | .ok _ =>
        ((x'.cancelInTurn stamps pause reason rest).1.map (c :: ·),
          (x'.cancelInTurn stamps pause reason rest).2) := rfl
  cases hrelease : (x.ledger.release c).1 with
  | error e =>
    rw [hrun, hrelease] at hok
    cases hok
  | ok u =>
    rw [hrun, hrelease] at hok ⊢
    dsimp only at hok ⊢
    rw [hok]
    cases hothers : (x'.cancelInTurn stamps pause reason rest).1 with
    | error e =>
      rw [hothers] at hok
      cases hok
    | ok others =>
      rw [hothers] at hok
      exact ⟨others, (Except.ok.inj hok).symm, rfl, rfl⟩

theorem Cancellable.cancelsAll (h : x.Cancellable user orders)
    (hok : (x.cancelInTurn stamps pause reason orders).1 = .ok answer) :
    x.store.CancelsAll orders reason answer
      (x.cancelInTurn stamps pause reason orders).2.store := by
  induction orders generalizing x answer with
  | nil =>
    obtain rfl := Except.ok.inj hok
    exact ⟨.nil, fun c hc => absurd hc List.not_mem_nil, fun _ _ => rfl, rfl, rfl, rfl⟩
  | cons o rest ih =>
    obtain ⟨others, rfl, hothers, hrun⟩ := cancelInTurn_cons_eq_ok hok
    set c := o.cancelled reason (stamps (x.drawn + pause)).time with hc
    have hrest := ih (h.tail reason (stamps (x.drawn + pause)).time (x.drawn + pause + 1)) hothers
    rw [hrun]
    have hput : ∀ id, (x.store.orders.put c).find? id =
        if o.id = id then some c else x.store.orders.find? id := fun id =>
      OrderTable.find?_put _ c id
    have hids := List.nodup_cons.1 h.ids_nodup
    have hcancel := Order.cancel_eq_ok (h.cancellable o List.mem_cons_self) reason
      (stamps (x.drawn + pause)).time
    refine ⟨.cons ⟨_, hcancel⟩ hrest.cancelled, ?_, fun id hid => ?_, hrest.trades_eq,
      hrest.settlements_eq, hrest.nextSequence_eq⟩
    · refine List.forall_mem_cons.2 ⟨?_, hrest.stored⟩
      exact (hrest.others o.id hids.1).trans ((hput o.id).trans (if_pos rfl))
    · rw [List.map_cons, List.mem_cons, not_or] at hid
      exact (hrest.others id hid.2).trans ((hput id).trans (if_neg (Ne.symm hid.1)))

/-! ### All orders of a user -/

theorem cancellable_cancellableOrders (x : Exchange) (user : UserId) :
    x.Cancellable user (x.store.cancellableOrders user) := by
  have hmem : ∀ o ∈ x.store.cancellableOrders user, _ := fun o ho =>
    Store.mem_cancellableOrders_iff.1 ho
  refine ⟨?_, fun o ho => OrderTable.find?_of_mem (hmem o ho).1, fun o ho => (hmem o ho).2.1,
    fun o ho => OrderStatus.isCancellable_iff.2 (hmem o ho).2.2⟩
  refine ((List.mergeSort_perm _ _).map _).nodup_iff.2 ?_
  exact x.store.orders.ids_nodup.sublist (List.filter_sublist.map _)

theorem run_cancelAll (stamps : ℕ → Stamp) (x : Exchange) (user : UserId) (reason : String) :
    (Service.cancelAll user reason).work.run (handler stamps) x =
      (({ x with drawn := x.drawn + 1 }.cancelInTurn stamps 0 reason
          (x.store.cancellableOrders user)).1.map .ok,
        ({ x with drawn := x.drawn + 1 }.cancelInTurn stamps 0 reason
          (x.store.cancellableOrders user)).2) := by
  have hlist : Task.Ends (handler stamps)
      (Service.store (.cancellableOrders user) : Task ServiceError (List Order)) x
      (.ok (x.store.cancellableOrders user)) { x with drawn := x.drawn + 1 } := rfl
  have hlisted := cancellable_cancellableOrders { x with drawn := x.drawn + 1 } user
  exact hlist.run_bind.trans (run_cancelEach hlisted)

theorem cancelAll_eq_ok_iff :
    ((Service.cancelAll user reason).work.run (handler stamps) x).1 = .ok (.ok answer) ↔
      ({ x with drawn := x.drawn + 1 }.cancelInTurn stamps 0 reason
        (x.store.cancellableOrders user)).1 = .ok answer := by
  rw [run_cancelAll]
  dsimp only
  cases ({ x with drawn := x.drawn + 1 }.cancelInTurn stamps 0 reason
    (x.store.cancellableOrders user)).1 <;> simp [Except.map]

theorem cancelsAll_of_cancelAll
    (hok : ((Service.cancelAll user reason).work.run (handler stamps) x).1 = .ok (.ok answer)) :
    x.store.CancelsAll (x.store.cancellableOrders user) reason answer
      ((Service.cancelAll user reason).work.run (handler stamps) x).2.store := by
  have hlisted := cancellable_cancellableOrders { x with drawn := x.drawn + 1 } user
  rw [run_cancelAll]
  exact hlisted.cancelsAll (cancelAll_eq_ok_iff.1 hok)

/-- Where there is nothing to cancel, nothing happens. -/
theorem ends_cancelAll_of_none (stamps : ℕ → Stamp) (reason : String)
    (hnone : ∀ o ∈ x.store.orders.entries, o.userId = user →
      o.status ≠ .pending ∧ o.status ≠ .confirmed) :
    Task.Ends (handler stamps) (Service.cancelAll user reason) x (.ok [])
      { x with drawn := x.drawn + 1 } := by
  refine (run_cancelAll stamps x user reason).trans ?_
  rw [Store.cancellableOrders_eq_nil hnone]
  rfl

/-- Cancelling all orders of a user comes to the same as cancelling them one by one, the earliest
first, also where an overflow ends both. It succeeds just if the funds of each order find room when
its turn comes. Then it answers with the orders, each of them cancelled, no order of the user is
left that can be cancelled, and all other orders are as they were. Doing it again changes
nothing. -/
theorem cancelAll_eq_one_by_one (stamps stamps' : ℕ → Stamp) (x : Exchange) (user : UserId)
    (reason : String) :
    let orders := x.store.cancellableOrders user
    let all := (Service.cancelAll user reason).work.run (handler stamps) x
    let each := (orders.mapM fun o => Service.cancelOrder o.id user reason).work.run
      (handler stamps') x
    x.store.IsCancelList user orders ∧
    (all.1.map (Except.map (List.map Order.timeless)) =
        each.1.map (Except.map (List.map Order.timeless)) ∧
      all.2.SameButTimes each.2) ∧
    ((∃ answer, all.1 = .ok (.ok answer)) ↔ x.ledger.HasRoomForAll orders) ∧
    ∀ answer, all.1 = .ok (.ok answer) →
      x.store.CancelsAll orders reason answer all.2.store ∧
      (∀ o ∈ all.2.store.orders.entries, o.userId = user →
        o.status ≠ .pending ∧ o.status ≠ .confirmed) ∧
      ∀ later : ℕ → Stamp, ∃ y,
        Task.Ends (handler later) (Service.cancelAll user reason) all.2 (.ok []) y ∧
          y.store = all.2.store ∧ y.ledger = all.2.ledger := by
  intro orders all each
  have hsame : SameButTimes { x with drawn := x.drawn + 1 } x := ⟨rfl, rfl, rfl, rfl, rfl⟩
  obtain ⟨hanswer, hafter⟩ := hsame.cancelInTurn stamps stamps' 0 1 reason orders
  have hall : all = _ := run_cancelAll stamps x user reason
  have heach : each = _ := run_mapM_cancelOrder (cancellable_cancellableOrders x user)
  refine ⟨x.store.isCancelList user, ⟨?_, ?_⟩, ?_, fun answer hok => ?_⟩
  · have hmap : ∀ r : Checked (List Order),
        ((r.map Except.ok : Outcome ServiceError (List Order)).map
          (Except.map (List.map Order.timeless))) =
            (r.map (List.map Order.timeless)).map Except.ok := by
      rintro (_ | _) <;> rfl
    rw [hall, heach, hmap, hmap, hanswer]
  · rw [hall, heach]
    exact hafter
  · exact (exists_congr fun _ => cancelAll_eq_ok_iff).trans exists_cancelInTurn_iff
  · have hcancels := cancelsAll_of_cancelAll hok
    have hnone := hcancels.not_cancellable
    exact ⟨hcancels, hnone, fun later =>
      ⟨_, ends_cancelAll_of_none later reason hnone, rfl, rfl⟩⟩

/-- A buy for 100 dollars and a sell of five ounces, of one user. -/
def bothSides : Store :=
  let call (c : StoreCall) : StoreAct := .call ⟨.ofNat 4, .epoch⟩ c
  Store.empty.afterActs
    [call (.insertOrder (.gold 1 .buy .one (.ofWord 100) 1)),
      call (.insertOrder (.gold 2 .sell (.ofWord 5) (.ofWord 200) 1)),
      call (.transitionOrder ⟨.ofNat 1⟩ .confirm), call (.transitionOrder ⟨.ofNat 2⟩ .confirm)]

/-- The user's funds are locked, and then dollars are deposited. -/
def reservesAnd (deposited : Decimal) : Ledger :=
  Ledger.empty.afterActs
    [.deposit ⟨1⟩ "USD" (.ofWord 100), .call (.lock ⟨1⟩ "USD" (.ofWord 100)),
      .deposit ⟨1⟩ "XAU" (.ofWord 5), .call (.lock ⟨1⟩ "XAU" (.ofWord 5)),
      .deposit ⟨1⟩ "USD" deposited]

/-- The largest amount that there is. -/
def largest : Decimal := (Decimal.ofInt? (Decimal.bound - 1)).getD .zero

theorem cancellableOrders_bothSides :
    bothSides.cancellableOrders ⟨1⟩ = bothSides.orders.entries := by
  have hall : bothSides.orders.entries.filter (fun o =>
      o.userId = ⟨1⟩ && o.status.isCancellable) = bothSides.orders.entries := by
    decide +kernel
  rw [Store.cancellableOrders, hall]
  exact List.mergeSort_of_pairwise (by decide +kernel)

/-- With room for its funds each of the two orders is cancelled. -/
theorem cancelAll_eq_one_by_one_bothSides :
    let x : Exchange := ⟨bothSides, reservesAnd .one, 0⟩
    let all := (Service.cancelAll ⟨1⟩ "").work.run (handler fun _ => ⟨.ofNat 4, .epoch⟩) x
    ∃ answer, all.1 = .ok (.ok answer) ∧
      bothSides.CancelsAll bothSides.orders.entries "" answer all.2.store ∧
      (∀ o ∈ all.2.store.orders.entries, o.userId = ⟨1⟩ →
        o.status ≠ .pending ∧ o.status ≠ .confirmed) ∧
      ∀ later : ℕ → Stamp, ∃ y,
        Task.Ends (handler later) (Service.cancelAll ⟨1⟩ "") all.2 (.ok []) y ∧
          y.store = all.2.store ∧ y.ledger = all.2.ledger := by
  intro x all
  have hroom : x.ledger.HasRoomForAll (x.store.cancellableOrders ⟨1⟩) := by
    rw [show x.store.cancellableOrders ⟨1⟩ = _ from cancellableOrders_bothSides]
    decide +kernel
  obtain ⟨-, -, hreturns, hresult⟩ := cancelAll_eq_one_by_one (fun _ => ⟨.ofNat 4, .epoch⟩)
    (fun _ => ⟨.ofNat 4, .epoch⟩) x ⟨1⟩ ""
  obtain ⟨answer, hall⟩ := hreturns.2 hroom
  refine ⟨answer, hall, ?_⟩
  rw [← cancellableOrders_bothSides]
  exact hresult answer hall

/-- There is no room for the 100 dollars of the buy. The sell stays in the book, though by itself it
can be cancelled, and the dollars are lost. -/
theorem confirmed_after_cancelAll :
    let x : Exchange := ⟨bothSides, reservesAnd largest, 0⟩
    let stamps : ℕ → Stamp := fun _ => ⟨.ofNat 4, .epoch⟩
    let all := (Service.cancelAll ⟨1⟩ "").work.run (handler stamps) x
    let alone := (Service.cancelOrder ⟨.ofNat 2⟩ ⟨1⟩ "").work.run (handler stamps) all.2
    bothSides.cancellableOrders ⟨1⟩ = bothSides.orders.entries ∧
    all.1 = .error .addition ∧
    all.2.store.orders.entries.map (fun o => (o.id, o.status)) =
      [(⟨.ofNat 1⟩, .cancelled), (⟨.ofNat 2⟩, .confirmed)] ∧
    (x.ledger.wallet ⟨1⟩ "USD" = ⟨⟨1⟩, "USD", largest, .ofWord 100⟩ ∧
      all.2.ledger.wallet ⟨1⟩ "USD" = ⟨⟨1⟩, "USD", largest, .zero⟩) ∧
    alone.1.map (Except.map Order.status) = .ok (.ok .cancelled) := by
  simp only [run_cancelAll, cancellableOrders_bothSides]
  decide +kernel

end Exchange

end Bourse
