import Bourse.Proofs.Task
import Bourse.Proofs.Trade.Floor
import Bourse.Service

/-!
# What a clerk does

A clerk confirms an order, cancels one, or cancels all orders of a user, while others use the store.
What it has read may be out of date when it acts on it; only the transitions that the store grants
count. This follows a clerk through its calls and says what it has achieved when it is done: which
orders it has moved, that it reports just these, that it sends to the ledger only what an order that
it has just cancelled had reserved, and that it has moved no order if it is refused.
-/

namespace Bourse

/-- A transition is asked of an order that is missing, or that does not allow it, or it is granted. -/
theorem Store.perform_transitionOrder (s : Store) (stamp : Stamp) (id : OrderId) (t : Transition) :
    (s.orders.find? id = none ∧
      s.perform stamp (.transitionOrder id t) = (.ok (.error (.orderNotFound id)), s)) ∨
    (∃ e, s.perform stamp (.transitionOrder id t) = (.ok (.error (.order e)), s)) ∨
    ∃ o o', s.orders.find? id = some o ∧ t.apply o stamp.time = .ok o' ∧
      s.perform stamp (.transitionOrder id t) =
        (.ok (.ok o'), { s with orders := s.orders.put o' }) := by
  rw [perform, transitionOrder]
  cases hfound : s.orders.find? id with
  | none => exact Or.inl ⟨rfl, rfl⟩
  | some o =>
    dsimp only
    cases happly : t.apply o stamp.time with
    | error e => exact Or.inr (Or.inl ⟨e, rfl⟩)
    | ok o' => exact Or.inr (Or.inr ⟨o, o', rfl, happly, rfl⟩)

/-- What a clerk is asked to do. -/
inductive Errand where
  | confirm (id : OrderId)
  | cancel (id : OrderId) (user : UserId) (reason : String)
  | cancelAll (user : UserId) (reason : String)

namespace Errand

/-- The type of what a clerk comes back with. -/
def Receipt : Errand → Type
  | confirm _ => Bool
  | cancel _ _ _ => Order
  | cancelAll _ _ => List Order

/-- The task of an errand. -/
def task : (e : Errand) → Task ServiceError e.Receipt
  | confirm id => Service.confirmIfPending id
  | cancel id user reason => Service.cancelOrder id user reason
  | cancelAll user reason => Service.cancelAll user reason

/-- The orders that are returned as cancelled. -/
def cancelled : (e : Errand) → e.Receipt → List Order
  | confirm _, _ => []
  | cancel _ _ _, o => [o]
  | cancelAll _ _, orders => orders

end Errand

/-- A call that a clerk has made, with the reply and the stores before and after it. -/
structure Deed where
  clerk : ℕ
  before : Store
  call : Call
  reply : call.Reply
  after : Store

namespace Deed

/-- The order that a granted transition returns. -/
def movedBy : (c : Call) → c.Reply → Option Order
  | .store (.transitionOrder _ _), .ok (.ok o) => some o
  | _, _ => none

/-- The order that a deed has changed. -/
def moved? (d : Deed) : Option Order := movedBy d.call d.reply

/-- Takes an order from one status to another. -/
def Moves (d : Deed) (id : OrderId) (a b : OrderStatus) : Prop :=
  ∃ o o', d.before.orders.find? id = some o ∧ o.status = a ∧
    d.after.orders.find? id = some o' ∧ o'.status = b

/-- The orders that were moved, the latest first. -/
def moves (log : List Deed) : List Order :=
  log.filterMap moved?

/-- The order that the latest call has cancelled, if it has. -/
def justCancelled (log : List Deed) : Option Order :=
  (log.head?.bind moved?).filter fun o => o.status = .cancelled

end Deed

/-- A call to the ledger unlocks what `quantity` of an order reserves. -/
def Order.Unlocks (o : Order) (quantity : Decimal) (c : LedgerCall) : Prop :=
  ∃ reserve, o.reserveFor quantity = .ok reserve ∧
    c = .unlock o.userId reserve.asset reserve.amount

namespace Errand

open Deed

/-- Confirming ends with whether the order was moved, and moves no other. -/
def Confirms (id : OrderId) (r : Outcome ServiceError Bool) (moved : List Order) : Prop :=
  ∃ b : Bool, r = .ok (.ok b) ∧
    moved.map (fun o => (o.id, o.status)) = if b then [(id, .confirmed)] else []

/-- Cancelling ends with the orders that were moved, the latest of them first in `moved`, or with an
error and none moved. It may also be cut short by an overflow. -/
def Cancels {ρ : Type} (orders : ρ → List Order) (r : Outcome ServiceError ρ)
    (moved : List Order) : Prop :=
  (∀ receipt, r = .ok (.ok receipt) →
    moved.reverse = orders receipt ∧ ∀ o ∈ moved, o.status = .cancelled) ∧
  ∀ error, r = .ok (.error error) → moved = []

/-- How a clerk leaves its errand, having moved some orders. -/
def Ends : (e : Errand) → Outcome ServiceError e.Receipt → List Order → Prop
  | confirm id, r, moved => Confirms id r moved
  | e, r, moved => Cancels e.cancelled r moved

end Errand

namespace Clerk

open Deed

/-- A store, and the deeds of one clerk, the latest first. -/
abbrev View := Store × List Deed

/-- The calls of a clerk: it reads, confirms and cancels orders, and unlocks what is left of an order
that it has just cancelled. -/
def Proper : Call → View → Prop
  | .store (.getOrder _), _ => True
  | .store (.cancellableOrders _), _ => True
  | .store (.transitionOrder _ .confirm), _ => True
  | .store (.transitionOrder _ (.cancel _)), _ => True
  | .ledger c, x => ∃ o, justCancelled x.2 = some o ∧ o.Unlocks o.remaining c
  | _, _ => False

/-- Others may use the store before a call is answered. The ledger may answer anything. -/
def answers (clerk : ℕ) : Work.Answers View := fun c x reply x' =>
  ∃ s stamp ledger, x.1.Grows s ∧ Floor.answer s stamp ledger c = (reply, x'.1) ∧
    x'.2 = ⟨clerk, s, c, reply, x'.1⟩ :: x.2

/-- What a clerk does leads to `Q`, whatever others do. -/
def Leads {ε α : Type} (clerk : ℕ) (t : Task ε α) (Q : Outcome ε α → View → Prop) (x : View) :
    Prop :=
  t.wp (answers clerk) (fun _ _ => True) Proper Q x

variable {clerk : ℕ} {x x' : View} {ε δ α β : Type} {id : OrderId}

theorem leads_bind {t : Task ε α} {f : α → Task ε β} {Q : Outcome ε β → View → Prop} :
    Leads clerk (t >>= f) Q x ↔
      Leads clerk t (Task.onResult (fun a => Leads clerk (f a) Q) Q) x :=
  Task.wp_bind

/-! ### Single calls -/

theorem leads_store {c : StoreCall} {Q : Outcome StoreError c.Answer → View → Prop}
    (hc : Proper (.store c) x)
    (hQ : ∀ s stamp, x.1.Grows s → Q (s.perform stamp c).1
      ((s.perform stamp c).2,
        ⟨clerk, s, .store c, (s.perform stamp c).1, (s.perform stamp c).2⟩ :: x.2)) :
    Leads clerk (Task.store c) Q x := by
  refine Task.wp_store.2 fun _ => ⟨hc, ?_⟩
  rintro reply ⟨s', deeds⟩ ⟨s, stamp, ledger, hgrows, hanswer, hdeeds⟩
  obtain ⟨hreply, hs'⟩ := Prod.mk.inj hanswer
  dsimp only at hs' hdeeds
  subst hreply hs' hdeeds
  exact hQ s stamp hgrows

theorem leads_findOrder {Q : Outcome ServiceError (Option Order) → View → Prop}
    (hQ : ∀ s deeds found, x.1.Grows s → moves deeds = moves x.2 →
      Q (.ok (.ok found)) (s, deeds)) :
    Leads clerk (Service.findOrder id) Q x :=
  Task.wp_mapError.2 (leads_store trivial fun s _ hgrows => hQ s _ _ hgrows rfl)

theorem leads_getOrder {Q : Outcome ServiceError Order → View → Prop}
    (hfound : ∀ s deeds o, x.1.Grows s → moves deeds = moves x.2 → Q (.ok (.ok o)) (s, deeds))
    (hmissing : ∀ s deeds, x.1.Grows s → moves deeds = moves x.2 →
      Q (.ok (.error (.notFound id))) (s, deeds)) :
    Leads clerk (Service.getOrder id) Q x := by
  refine leads_bind.2 (leads_findOrder fun s deeds found hgrows hmoves => ?_)
  cases found with
  | some o => exact hfound s deeds o hgrows hmoves
  | none => exact hmissing s deeds hgrows hmoves

/-- A transition is granted, or there is no such order, or the order does not allow it. -/
theorem leads_transition {t : Transition} {Q : Outcome StoreError Order → View → Prop}
    (ht : Proper (.store (.transitionOrder id t)) x)
    (hgranted : ∀ s deeds o o' now, x.1.Grows s → o.id = id → t.apply o now = .ok o' →
      moves deeds = o' :: moves x.2 → deeds.head?.bind moved? = some o' →
      Q (.ok (.ok o')) (s, deeds))
    (hmissing : ∀ s deeds, x.1.Grows s → s.orders.find? id = none → moves deeds = moves x.2 →
      Q (.ok (.error (.orderNotFound id))) (s, deeds))
    (hrefused : ∀ s deeds e, x.1.Grows s → moves deeds = moves x.2 →
      Q (.ok (.error (.order e))) (s, deeds)) :
    Leads clerk (Task.store (.transitionOrder id t)) Q x := by
  refine leads_store ht fun s stamp hgrows => ?_
  have hgrows' := hgrows.trans (s.grows_perform stamp (.transitionOrder id t))
  obtain ⟨hfound, hperform⟩ | ⟨e, hperform⟩ | ⟨o, o', hfound, happly, hperform⟩ :=
    s.perform_transitionOrder stamp id t
  · rw [hperform]
    exact hmissing s _ hgrows hfound rfl
  · rw [hperform]
    exact hrefused s _ e hgrows rfl
  · rw [hperform] at hgrows' ⊢
    exact hgranted _ _ o o' _ hgrows' (OrderTable.id_of_find? hfound) happly rfl rfl

/-! ### Confirming -/

theorem leads_confirm (id : OrderId) (s : Store) :
    Leads clerk (Service.confirmIfPending id)
      (fun r x => Errand.Confirms id r (moves x.2)) (s, []) := by
  refine leads_bind.2 (leads_findOrder fun s₁ deeds₁ found _ hmoves => ?_)
  cases found with
  | none => exact ⟨false, rfl, by rw [hmoves]; rfl⟩
  | some o =>
    show Leads clerk _ _ (s₁, deeds₁)
    dsimp only
    split
    · refine leads_bind.2 (Task.wp_attempt.2 (leads_transition trivial ?_ ?_ ?_))
      · intro s₂ deeds₂ o o' now _ hid happly hmoves' _
        obtain ⟨-, rfl⟩ := Order.confirm_eq_ok_iff.1 happly
        refine ⟨true, rfl, ?_⟩
        rw [hmoves', hmoves, ← hid]
        rfl
      · intro s₂ deeds₂ _ _ hmoves'
        exact ⟨false, rfl, by rw [hmoves', hmoves]; rfl⟩
      · intro s₂ deeds₂ e _ hmoves'
        exact ⟨false, rfl, by rw [hmoves', hmoves]; rfl⟩
    · exact ⟨false, rfl, by rw [hmoves]; rfl⟩

/-! ### Cancelling -/

/-- The funds of an order that was just cancelled are unlocked. Should that fail, nothing is done
about it. -/
theorem leads_release {o : Order} {Q : Outcome ServiceError Unit → View → Prop}
    (ho : justCancelled x.2 = some o)
    (hQ : ∀ s deeds (r : Checked Unit), x.1.Grows s → moves deeds = moves x.2 →
      Q (r.map .ok) (s, deeds)) :
    Leads clerk (Service.releaseReserve o) Q x := by
  have hnothing : Q (.ok (.ok ())) x := hQ x.1 x.2 (.ok ()) (.refl _) rfl
  unfold Service.releaseReserve
  show Task.wp _ _ _ _ _ _
  split
  · exact hnothing
  · cases hreserve : o.reserveFor o.remaining with
    | error e => exact hnothing
    | ok reserve =>
      refine Task.wp_bind.2 (Task.wp_attempt.2 (Task.wp_ledger.2 fun _ =>
        ⟨⟨o, ho, reserve, hreserve, rfl⟩, ?_⟩))
      rintro reply ⟨s', deeds⟩ ⟨s, stamp, ledger, hgrows, hanswer, hdeeds⟩
      obtain ⟨-, hs'⟩ := Prod.mk.inj hanswer
      dsimp only at hs' hdeeds
      subst hs' hdeeds
      cases reply with
      | error overflow => exact hQ s _ (.error overflow) hgrows rfl
      | ok r => exact hQ s _ (.ok ()) hgrows rfl

theorem justCancelled_eq {deeds : List Deed} {o : Order} (h : deeds.head?.bind moved? = some o)
    (ho : o.status = .cancelled) : justCancelled deeds = some o := by
  rw [justCancelled, h]
  exact Option.filter_eq_some_iff.2 ⟨rfl, by simpa using ho⟩

theorem leads_cancel (id : OrderId) (user : UserId) (reason : String) (s : Store) :
    Leads clerk (Service.cancelOrder id user reason)
      (fun r x => Errand.Cancels (fun o => [o]) r (moves x.2)) (s, []) := by
  have hrefused : ∀ error deeds, moves deeds = [] →
      Errand.Cancels (fun o : Order => [o]) (.ok (.error error)) (moves deeds) :=
    fun error deeds hmoves => ⟨fun _ h => (by cases h), fun _ _ => hmoves⟩
  refine leads_bind.2 (leads_getOrder (fun s₁ deeds₁ o _ hmoves => ?_)
    fun s₁ deeds₁ _ hmoves => hrefused _ _ hmoves)
  show Leads clerk _ _ (s₁, deeds₁)
  dsimp only
  split
  · exact hrefused _ _ hmoves
  · split
    · refine leads_bind.2 (Task.wp_mapError.2 (leads_transition trivial ?_ ?_ ?_))
      · intro s₂ deeds₂ p o' now _ _ happly hmoves' hhead
        obtain ⟨-, rfl⟩ := Order.cancel_eq_ok_iff.1 happly
        refine leads_bind.2 (leads_release (justCancelled_eq hhead rfl) ?_)
        intro s₃ deeds₃ r _ hmoves''
        cases r with
        | error overflow => exact ⟨fun _ h => (by cases h), fun _ h => (by cases h)⟩
        | ok _ =>
          refine ⟨fun receipt h => ?_, fun _ h => (by cases h)⟩
          cases h
          rw [hmoves'', hmoves', hmoves]
          exact ⟨rfl, by simp [moves]⟩
      · intro s₂ deeds₂ _ _ hmoves'
        exact hrefused _ _ (hmoves'.trans hmoves)
      · intro s₂ deeds₂ e _ hmoves'
        exact hrefused _ _ (hmoves'.trans hmoves)
    · exact hrefused _ _ hmoves

/-- Orders of the store are cancelled one by one, and those that were cancelled are returned. That
some were is no reason to fail, nor is that others were not. -/
theorem leads_cancelEach (reason : String) (orders : List Order)
    (hstored : ∀ o ∈ orders, ∃ p ∈ x.1.orders.entries, p.id = o.id) :
    Leads clerk (Service.cancelEach reason orders)
      (fun r x' =>
        (∀ done, r = .ok (.ok done) →
          moves x'.2 = done.reverse ++ moves x.2 ∧ ∀ o ∈ done, o.status = .cancelled) ∧
        ∀ error, r ≠ .ok (.error error)) x := by
  induction orders generalizing x with
  | nil =>
    refine ⟨fun done h => ?_, fun _ h => (by cases h)⟩
    cases h
    exact ⟨rfl, by simp⟩
  | cons o rest ih =>
    have hrest : ∀ s, x.1.Grows s → ∀ p ∈ rest, ∃ q ∈ s.orders.entries, q.id = p.id := by
      intro s hgrows p hp
      obtain ⟨q, hq, hid⟩ := hstored p (List.mem_cons_of_mem _ hp)
      obtain ⟨q', hq', hterms⟩ := hgrows.orders q hq
      exact ⟨q', hq', hterms.id_eq.trans hid⟩
    refine leads_bind.2 (Task.wp_attempt.2 (leads_transition trivial ?_ ?_ ?_))
    · intro s₁ deeds₁ p o' now hgrows₁ _ happly hmoves₁ hhead
      obtain ⟨-, rfl⟩ := Order.cancel_eq_ok_iff.1 happly
      refine leads_bind.2 (leads_release (justCancelled_eq hhead rfl) ?_)
      intro s₂ deeds₂ r hgrows₂ hmoves₂
      cases r with
      | error overflow => exact ⟨fun _ h => (by cases h), fun _ h => (by cases h)⟩
      | ok _ =>
        refine leads_bind.2 (Task.wp_mono (ih (hrest s₂ (hgrows₁.trans hgrows₂))) ?_)
        rintro (overflow | error | done) x' ⟨hdone, herror⟩
        · exact ⟨fun _ h => (by cases h), fun _ h => (by cases h)⟩
        · exact absurd rfl (herror error)
        · obtain ⟨hmoves₃, hstatus⟩ := hdone done rfl
          refine ⟨fun all h => ?_, fun _ h => (by cases h)⟩
          cases h
          refine ⟨?_, List.forall_mem_cons.2 ⟨rfl, hstatus⟩⟩
          rw [hmoves₃, hmoves₂, hmoves₁, List.reverse_cons, List.append_assoc]
          rfl
    · intro s₁ deeds₁ hgrows hmissing _
      obtain ⟨p, hp, hid⟩ := hstored o List.mem_cons_self
      obtain ⟨q, hq, hterms⟩ := hgrows.orders p hp
      exact absurd (hterms.id_eq.trans hid) (OrderTable.find?_eq_none_iff.1 hmissing q hq)
    · intro s₁ deeds₁ e hgrows hmoves
      refine Task.wp_mono (ih (hrest s₁ hgrows)) ?_
      rintro r x' ⟨hdone, herror⟩
      refine ⟨fun done h => ?_, herror⟩
      rw [(hdone done h).1, hmoves]
      exact ⟨rfl, (hdone done h).2⟩

theorem leads_cancelAll (user : UserId) (reason : String) (s : Store) :
    Leads clerk (Service.cancelAll user reason)
      (fun r x => Errand.Cancels (fun orders => orders) r (moves x.2)) (s, []) := by
  refine leads_bind.2 (Task.wp_mapError.2 (leads_store trivial fun s₁ stamp _ => ?_))
  refine Task.wp_mono (leads_cancelEach reason (s₁.cancellableOrders user) ?_) ?_
  · intro o ho
    rw [Store.cancellableOrders, List.mem_mergeSort] at ho
    exact ⟨o, (List.mem_filter.1 ho).1, rfl⟩
  · rintro r x ⟨hdone, herror⟩
    refine ⟨fun done h => ?_, fun error h => absurd h (herror error)⟩
    obtain ⟨hmoves, hstatus⟩ := hdone done h
    have hmoves : moves x.2 = done.reverse := hmoves.trans (List.append_nil _)
    rw [hmoves, List.reverse_reverse]
    exact ⟨rfl, fun o ho => hstatus o (List.mem_reverse.1 ho)⟩

/-- Whatever others do, a clerk makes only proper calls, and ends as it should. -/
theorem leads_task (e : Errand) (s : Store) :
    Leads clerk e.task (fun r x => e.Ends r (moves x.2)) (s, []) := by
  cases e with
  | confirm id => exact leads_confirm id s
  | cancel id user reason => exact leads_cancel id user reason s
  | cancelAll user reason => exact leads_cancelAll user reason s

end Clerk

end Bourse
