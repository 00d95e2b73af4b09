import Bourse.Proofs.Matching.Agreement
import Bourse.Proofs.Matching.Quiet
import Bourse.Proofs.Service

/-!
# Orders that arrive

An order that is placed in a quiet store is stored, confirmed and matched until no partner is left.
If the engine may make as many matches in a run as there are orders, the store is quiet again,
whatever the ledger answers on the way and however the request ends.
-/

namespace Bourse

/-- A store is quiet, if an engine can match all of its orders in one run. -/
def Store.Settled (e : Engine) (s : Store) : Prop :=
  s.orders.entries.length ≤ e.maxIterations.toNat → s.Quiet e.allowSelfTrade

namespace Desk

variable {stamps : ℕ → Stamp} {answers : LedgerAnswers} {x : Desk} {e : Engine} {id : OrderId}
  {o : Order} {P : Store → Prop} {ε α : Type}

/-- What a task leads to. -/
abbrev wp (stamps : ℕ → Stamp) (answers : LedgerAnswers) (t : Task ε α)
    (Q : Outcome ε α → Desk → Prop) (x : Desk) : Prop :=
  t.wp (Work.Handler.answers (handler stamps answers)) (fun _ _ => True) (fun _ _ => True) Q x

/-- A task keeps what holds of the store, and `R` holds of its result. -/
abbrev Keeps (stamps : ℕ → Stamp) (answers : LedgerAnswers) (P : Store → Prop) (t : Task ε α)
    (R : α → Prop) : Prop :=
  t.Keeps (Work.Handler.answers (handler stamps answers)) (fun _ _ => True) (fun _ _ => True)
    (fun y => P y.store) R

theorem wp_store {c : StoreCall} {Q : Outcome StoreError c.Answer → Desk → Prop} :
    wp stamps answers (Task.store c) Q x ↔ Q (x.store.perform (stamps x.drawn) c).1
      { x with store := (x.store.perform (stamps x.drawn) c).2, drawn := x.drawn + 1 } :=
  Work.wp_iff_run

theorem keeps_stamp : Keeps stamps answers P (Task.stamp : Task ε Stamp) fun _ => True :=
  fun _ hy => Work.wp_iff_run.2 ⟨hy, fun _ _ => trivial⟩

theorem keeps_ledger (c : LedgerCall) :
    Keeps stamps answers P (Task.ledger c) fun _ => True :=
  fun _ hy => Work.wp_iff_run.2 ⟨hy, fun _ _ => trivial⟩

theorem keeps_findOrder (id : OrderId) :
    Keeps stamps answers P (Service.findOrder id) fun _ => True := by
  have hread : Keeps stamps answers P (Task.store (.getOrder id)) fun _ => True :=
    fun _ hy => wp_store.2 ⟨hy, fun _ _ => trivial⟩
  exact hread.mapError

theorem keeps_lockReserve (user : UserId) (reserve : Reserve) :
    Keeps stamps answers P (Service.lockReserve user reserve) fun _ => True := by
  refine (keeps_ledger _).mapError.bind fun sufficient _ => ?_
  dsimp only
  split
  · exact (keeps_ledger _).mapError.bind fun _ _ => .pure trivial
  · exact .throw

theorem keeps_unlockReserve (user : UserId) (reserve : Reserve) :
    Keeps stamps answers P (Service.unlockReserve user reserve) fun _ => True :=
  (keeps_ledger _).attempt.bind fun _ _ => .pure trivial

/-- Orders are never removed. -/
theorem length_le_run (w : Work α) :
    x.store.orders.entries.length ≤
      (w.run (handler stamps answers) x).2.store.orders.entries.length := by
  refine (Work.only_of_forall (p := fun _ => True) fun _ => trivial).run
    (P := fun y : Desk => x.store.orders.entries.length ≤ y.store.orders.entries.length)
    (fun c y _ hy => hy.trans ?_) (le_refl _)
  cases c with
  | store c => exact y.store.length_le_perform _ c
  | _ => exact le_refl _

/-! ### Placing an order -/

/-- An order that waits for partners is matched until none is left. -/
theorem ends_matchIncomingRepeatedly (stamps : ℕ → Stamp) (answers : LedgerAnswers)
    (hfees : e.fees.Fractions) (n : ℕ) (hx : x.store.QuietBut e.allowSelfTrade id)
    (ho : ∃ o, x.store.orders.find? id = some o) (hn : x.store.restingCount ≤ n) :
    ∃ trades y, Task.Ends (handler stamps answers) (e.matchIncomingRepeatedly id n) x (.ok trades) y ∧
      y.store.Quiet e.allowSelfTrade := by
  induction n generalizing x with
  | zero => exact ⟨[], x, Task.Ends.pure, hx.quiet_of_restingCount (Nat.le_zero.1 hn)⟩
  | succ n ih =>
    obtain ⟨o, ho⟩ := ho
    obtain ⟨y, hincoming, hy⟩ := ends_incomingCandidate stamps answers x e id
    cases hc : x.store.incomingCandidate e.allowSelfTrade id with
    | none =>
      rw [hc] at hincoming
      refine ⟨[], y, hincoming.bind Task.Ends.pure, ?_⟩
      rw [hy]
      exact hx.quiet ho hc
    | some c =>
      rw [hc] at hincoming
      rw [← hy] at hx ho hn hc
      obtain ⟨maker, taker, hne, hmaker, htaker, htradable, hquantity⟩ :=
        Store.tradable_of_incomingCandidate hc
      obtain ⟨m, z, hm, hexecute, hz, -⟩ :=
        ends_execute stamps answers hfees hx.regular hne hmaker htaker htradable
      have hfewer : z.store.restingCount ≤ n := by
        have := hm.restingCount_lt hz hquantity
        omega
      have ho' : ∃ p, z.store.orders.find? id = some p := by
        obtain ⟨p, hp, -⟩ := hm.find?_after ho
        exact ⟨p, by rw [hz, hp]⟩
      obtain ⟨trades, w, hrest, hw⟩ := ih (hx.matched hm hz) ho' hfewer
      exact ⟨m.trade :: trades, w,
        hincoming.bind (hexecute.bind (hrest.bind Task.Ends.pure)), hw⟩

theorem wp_matchConfirmed (hfees : e.fees.Fractions) (hx : x.store.QuietBut e.allowSelfTrade id)
    (ho : ∃ o, x.store.orders.find? id = some o) :
    wp stamps answers (Service.matchConfirmed e id) (fun _ y => y.store.Settled e) x := by
  by_cases hle : x.store.orders.entries.length ≤ e.maxIterations.toNat
  · obtain ⟨trades, y, hends, hy⟩ := ends_matchIncomingRepeatedly stamps answers hfees
      e.maxIterations.toNat hx ho (x.store.restingCount_le.trans hle)
    have hincoming : Task.Ends (handler stamps answers) (e.matchIncoming id) x (.ok trades) y :=
      hends
    have hconfirmed : Task.Ends (handler stamps answers) (Service.matchConfirmed e id) x
        (.ok trades) y := hincoming.attempt.bind Task.Ends.pure
    exact hconfirmed.wp fun _ => hy
  · exact Work.wp_iff_run.2 fun hlength => absurd ((length_le_run _).trans hlength) hle

/-- A pending order that is stored is confirmed. -/
theorem wp_confirmIfPending (ho : x.store.orders.find? o.id = some o) (hpending : o.status = .pending)
    {Q : Outcome ServiceError Bool → Desk → Prop}
    (hQ : ∀ o' now y, o.confirm now = .ok o' → y.store.orders = x.store.orders.put o' →
      Q (.ok (.ok true)) y) :
    wp stamps answers (Service.confirmIfPending o.id) Q x := by
  refine Task.wp_bind.2 (Task.wp_mapError.2 (wp_store.2 ?_))
  have hget : x.store.perform (stamps x.drawn) (.getOrder o.id) = (.ok (.ok (some o)), x.store) := by
    simp only [Store.perform, Store.reply, ho]
  rw [hget]
  show wp stamps answers (if o.status = .pending then _ else _) Q
    { x with store := x.store, drawn := x.drawn + 1 }
  rw [if_pos hpending]
  refine Task.wp_bind.2 (Task.wp_attempt.2 (wp_store.2 ?_))
  have hconfirm : o.confirm (stamps (x.drawn + 1)).time = .ok _ :=
    Order.confirm_eq_ok_iff.2 ⟨hpending, rfl⟩
  simp only [Store.perform, Store.transitionOrder, ho, Transition.apply, hconfirm]
  exact hQ _ _ _ hconfirm rfl

/-- What holds of a store holds in the end, if a first part leaves the store as it is. -/
theorem wp_bind_keeps {β : Type} {t : Task ε α} {f : α → Task ε β} {R : α → Prop} (hx : P x.store)
    (ht : Keeps stamps answers (· = x.store) t R)
    (hf : ∀ a y, R a → y.store = x.store → wp stamps answers (f a) (fun _ y => P y.store) y) :
    wp stamps answers (t >>= f) (fun _ y => P y.store) x := by
  refine Task.wp_bind.2 (Task.wp_mono (ht x rfl) ?_)
  rintro (overflow | error | a) y ⟨hy, ha⟩
  · exact (congrArg P hy).mpr hx
  · exact (congrArg P hy).mpr hx
  · exact hf a y (ha a rfl) hy

/-- The same if the first part stores an order, or fails to. -/
theorem wp_insertReserved {β : Type} {reserve : Reserve} {f : Order → Task ServiceError β}
    (hx : P x.store)
    (hf : ∀ sequence y, y.store.orders = x.store.orders.put { o with sequence } →
      wp stamps answers (f { o with sequence }) (fun _ y => P y.store) y) :
    wp stamps answers (Service.insertReserved o reserve >>= f) (fun _ y => P y.store) x := by
  refine Task.wp_bind.2 (Task.wp_bind.2 (Task.wp_attempt.2 (Task.wp_mapError.2 (wp_store.2 ?_))))
  simp only [Store.perform, Store.insertOrder]
  cases hfound : x.store.orders.find? o.id with
  | some p =>
    have hunlock : Keeps stamps answers P (Service.unlockReserve o.userId reserve)
        fun _ => True := keeps_unlockReserve o.userId reserve
    refine Task.wp_bind.2 (Task.wp_mono (hunlock _ hx) ?_)
    rintro (overflow | e | u) y ⟨hy, -⟩ <;> exact hy
  | none => exact hf _ _ rfl

/-- An order that is added to a quiet store and confirmed is the only one with partners. -/
theorem quietBut_placed {s s₁ s₂ : Store} {stamp : Stamp} {terms : OrderTerms} {now : Instant}
    {sequence : UInt64} {o' : Order} (hs : s.Quiet e.allowSelfTrade)
    (hcreate : Order.create stamp terms = .ok o) (hput : s₁.orders = s.orders.put { o with sequence })
    (hconfirm : Order.confirm { o with sequence } now = .ok o')
    (hput' : s₂.orders = s₁.orders.put o') :
    s₂.QuietBut e.allowSelfTrade o.id ∧ ∃ p, s₂.orders.find? o.id = some p := by
  have hchanges : Order.Changes { o with sequence } o' := .applied (t := .confirm) hconfirm
  have hid : o'.id = o.id := hchanges.sameTerms.id_eq
  have hadded : s₂.QuietBut e.allowSelfTrade o'.id := by
    refine hs.added (((Order.Regular.of_create hcreate).numbered sequence).changes hchanges)
      hchanges.advances.moves.ne_pending fun p hp => ?_
    rw [hput', OrderTable.mem_put_iff, hput, OrderTable.mem_put_iff] at hp
    rcases hp with hp | ⟨rfl | ⟨hp, -⟩, hne⟩
    · exact Or.inl hp
    · exact absurd hid.symm hne
    · exact Or.inr hp
  rw [hid] at hadded
  refine ⟨hadded, o', ?_⟩
  rw [hput', OrderTable.find?_put, if_pos hid]

theorem wp_createOrder (hfees : e.fees.Fractions) (hx : x.store.Quiet e.allowSelfTrade)
    (request : NewOrder) :
    wp stamps answers (Service.createOrder e request) (fun _ y => y.store.Settled e) x := by
  have hsettled : x.store.Settled e := fun _ => hx
  refine wp_bind_keeps hsettled
    (Service.keeps_buildOrder (keeps_stamp (P := (· = x.store))) request) ?_
  rintro o y₁ ⟨stamp, terms, hcreate, -, -⟩ hy₁
  rw [← hy₁] at hsettled
  refine wp_bind_keeps hsettled (R := fun _ => True) (.ofExcept fun _ _ => trivial) ?_
  rintro reserve y₂ - hy₂
  rw [← hy₂] at hsettled
  refine wp_bind_keeps hsettled (keeps_lockReserve o.userId reserve) ?_
  rintro u y₃ - hy₃
  rw [← hy₃] at hsettled
  have hstore : y₃.store = x.store := hy₃.trans (hy₂.trans hy₁)
  refine wp_insertReserved hsettled fun sequence z₁ hz₁ => ?_
  have hfound : z₁.store.orders.find? o.id = some { o with sequence } := by
    rw [hz₁, OrderTable.find?_put, if_pos rfl]
  have hpending : o.status = .pending := by
    obtain ⟨-, -, -, rfl⟩ := Order.create_eq_ok_iff.1 hcreate
    rfl
  refine Task.wp_bind.2 (wp_confirmIfPending (o := { o with sequence }) hfound hpending ?_)
  intro o' now z₂ hconfirm hz₂
  rw [hstore] at hz₁
  obtain ⟨hquiet, hstored⟩ := quietBut_placed hx hcreate hz₁ hconfirm hz₂
  refine Task.wp_bind.2 (Task.wp_mono (wp_matchConfirmed hfees hquiet hstored) ?_)
  rintro (overflow | error | trades) z₃ hz₃
  · exact hz₃
  · exact hz₃
  -- What is left to do only reads.
  have hlast : Keeps stamps answers (Store.Settled e) (do
      let o := (← Service.findOrder o.id).getD { o with sequence }
      let message ← Task.ofChecked o.statusMessage
      return (⟨o, trades, message⟩ : OrderPlacement)) fun _ => True := by
    refine (keeps_findOrder o.id).bind fun found _ => ?_
    exact Task.Keeps.bind (Task.Keeps.ofChecked (R := fun _ => True) fun _ _ => trivial)
      fun message _ => .pure trivial
  exact Task.wp_mono (hlast z₃ hz₃) fun _ _ h => h.1

end Desk

end Bourse
