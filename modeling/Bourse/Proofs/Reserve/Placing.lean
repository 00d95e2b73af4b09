import Bourse.Proofs.Reserve.Matching
import Bourse.Proofs.Service

/-!
# Placing and cancelling keep the balance

An order is stored right after its funds are locked, and its funds are unlocked right after it is
cancelled. In between the funds are the difference between what is locked and what is owed.
-/

namespace Bourse

namespace Setting

variable {w : Setting} {x : Exchange} {e : Engine} {difference : Account →₀ ℚ} {o o' : Order}
  {user : UserId} {reserve : Reserve} {id : OrderId} {t : Transition} {ε α : Type}

/-- A call that only reads. -/
theorem keeps_reply {c : StoreCall} (f : Store → c.Answer)
    (hf : ∀ (s : Store) (stamp : Stamp), s.perform stamp c = s.reply (f s)) :
    w.Keeps (Task.store c) fun _ => True := by
  intro x hx
  refine wp_store.2 fun _ => ?_
  rw [hf]
  exact ⟨hx.unchanged, fun _ _ => trivial⟩

/-! ### Transitions -/

/-- A transition is refused, or what the order no longer reserves is the difference. -/
theorem wp_transition (hx : w.Balanced x) {Q : Outcome StoreError Order → Exchange → Prop}
    (hrefused : ∀ e, Q (.ok (.error e)) (after x x.store))
    (happlied : ∀ o o' now x', o.Funded w.precision → t.apply o now = .ok o' →
      w.BalancedUpTo (o.reserved - o'.reserved) x' → Q (.ok (.ok o')) x') :
    w.wp (Task.store (.transitionOrder id t)) Q x := by
  refine wp_store.2 fun _ => ?_
  simp only [Store.perform, Store.transitionOrder]
  cases hfound : x.store.orders.find? id with
  | none => exact hrefused _
  | some o =>
    dsimp only
    cases happ : t.apply o (w.stamps x.drawn).time with
    | error e => exact hrefused _
    | ok o' =>
      have hfunded := hx.1.sound.funded o (OrderTable.mem_of_find? hfound)
      refine happlied o o' _ _ hfunded happ ⟨?_, hx.2⟩
      let s' : Store := { x.store with orders := x.store.orders.put o' }
      have hbacked : w.Backed (0 + o.reserved - o'.reserved) (after x s') :=
        hx.1.transitioned hfound happ rfl rfl rfl
      rwa [zero_add] at hbacked

/-- A confirmed order reserves what it did before. -/
theorem reserved_confirm {now : Instant} (ho : o.Funded w.precision)
    (happ : Transition.confirm.apply o now = .ok o') : o'.reserved = o.reserved := by
  obtain ⟨hfunded, haccount, -, hopen, hcost⟩ := ho.apply happ
  obtain ⟨-, hstatus⟩ := Order.confirm_eq_ok_iff.1 happ
  have hopen' : o'.status.isTerminal = false := by
    rw [hstatus]
    rfl
  rw [ho.reserved_of_not_terminal hopen, hfunded.reserved_of_not_terminal hopen', haccount, hcost]

theorem keeps_confirm (w : Setting) (id : OrderId) :
    w.Keeps (Task.store (.transitionOrder id .confirm)) fun _ => True := by
  intro x hx
  refine wp_transition hx (fun e => ⟨hx.unchanged, fun _ _ => trivial⟩) ?_
  intro o o' now x' ho happ hx'
  rw [reserved_confirm ho happ, sub_self] at hx'
  exact ⟨hx', fun _ _ => trivial⟩

/-- Of a cancelled order, all that it had reserved is the difference. -/
theorem wp_cancel (hx : w.Balanced x) {reason : String}
    {Q : Outcome StoreError Order → Exchange → Prop}
    (hrefused : ∀ e, Q (.ok (.error e)) (after x x.store))
    (hcancelled : ∀ o x', o.Funded w.precision →
      w.BalancedUpTo (Finsupp.single o.account (o.cost o.remaining.toRat)) x' →
      Q (.ok (.ok o)) x') :
    w.wp (Task.store (.transitionOrder id (.cancel reason))) Q x := by
  refine wp_transition hx hrefused ?_
  intro o o' now x' ho happ hx'
  obtain ⟨hfunded, haccount, -, hopen, hcost⟩ := ho.apply happ
  obtain ⟨-, hstatus⟩ := Order.cancel_eq_ok_iff.1 happ
  have hdone : o'.status.isTerminal = true := by
    rw [hstatus]
    rfl
  rw [ho.reserved_of_not_terminal hopen, hfunded.reserved_of_terminal hdone, sub_zero, ← haccount,
    ← hcost] at hx'
  exact hcancelled o' x' hfunded hx'

/-! ### Locking and unlocking -/

/-- The funds that are the difference are unlocked. -/
theorem wp_unlockReserve
    (hx : w.BalancedUpTo (Finsupp.single (.locked user reserve.asset) reserve.amount.toRat) x)
    (hdig : HasDigits w.precision.total reserve.amount.toRat) (hpos : 0 < reserve.amount.toRat) :
    w.wp (Service.unlockReserve user reserve) (fun r x' => r = .ok (.ok ()) ∧ w.Balanced x') x := by
  obtain ⟨l, hunlock, hsettled, hl⟩ := hx.1.unlocked hdig hpos
  refine Task.wp_bind.2 (Task.wp_attempt.2 ((wp_ledger
    (c := .unlock user reserve.asset reserve.amount) hunlock trivial).2 ?_))
  refine Task.wp_pure.2 ⟨rfl, hl, fun q hq hmem => hx.2 q hq ?_⟩
  rwa [← hsettled]

/-- What is left of an order's funds is unlocked. -/
theorem wp_releaseReserve (ho : o.Funded w.precision)
    (hx : w.BalancedUpTo (Finsupp.single o.account (o.cost o.remaining.toRat)) x) :
    w.wp (Service.releaseReserve o) (fun r x' => r = .ok (.ok ()) ∧ w.Balanced x') x := by
  unfold Service.releaseReserve
  split
  · rename_i hzero
    rw [Decimal.isZero_iff.1 hzero, Order.cost_zero, Finsupp.single_zero] at hx
    exact Task.wp_pure.2 ⟨rfl, hx⟩
  · rename_i hzero
    have hremaining := ho.measured.remaining_nonneg
    have hpos : 0 < o.remaining.toRat :=
      lt_of_le_of_ne hremaining fun h => hzero (Decimal.isZero_iff.2 h.symm)
    obtain ⟨c, hc, hv⟩ := ho.reserveFor_eq ho.measured.remaining_digits hremaining
      ho.measured.remaining_le
    rw [hc]
    refine wp_unlockReserve ?_ ?_ ?_
    · rw [hv]
      exact hx
    · rw [hv]
      exact Order.cost_digits ho.price_digits ho.measured.remaining_digits
    · rw [hv]
      exact Order.cost_pos ho.price_pos hpos

/-- A lock fails and changes nothing, or what it locks becomes the difference. -/
theorem wp_lockReserve (hx : w.Balanced x)
    (hdig : reserve.amount.toRat * 10 ^ w.precision.total < Decimal.bound →
      HasDigits w.precision.total reserve.amount.toRat)
    {Q : Outcome ServiceError Unit → Exchange → Prop}
    (hrefused : ∀ e x', w.Balanced x' → Q (.ok (.error e)) x')
    (hlocked : ∀ x', 0 < reserve.amount.toRat →
      reserve.amount.toRat * 10 ^ w.precision.total < Decimal.bound →
      w.BalancedUpTo (Finsupp.single (.locked user reserve.asset) reserve.amount.toRat) x' →
      Q (.ok (.ok ())) x') :
    w.wp (Service.lockReserve user reserve) Q x := by
  have hvalidate :
      ∃ r, x.ledger.validate user reserve.asset reserve.amount = (.ok r, x.ledger) := by
    unfold Ledger.validate Ledger.refuse
    split
    · exact ⟨_, rfl⟩
    · exact ⟨_, rfl⟩
  obtain ⟨r, hr⟩ := hvalidate
  refine Task.wp_bind.2 (Task.wp_mapError.2 ((wp_ledger
    (c := .validate user reserve.asset reserve.amount) hr trivial).2 ?_))
  match r with
  | .error e => exact hrefused _ x hx
  | .ok false => exact hrefused _ x hx
  | .ok true =>
    refine Task.wp_bind.2 (Task.wp_mapError.2 ?_)
    obtain ⟨e, h⟩ | ⟨wallet, l, h, hpos, hlt, hsettled, hl⟩ :=
      hx.1.locked user reserve.asset hdig
    · exact (wp_ledger (c := .lock user reserve.asset reserve.amount) h trivial).2
        (hrefused _ x hx)
    · refine (wp_ledger (c := .lock user reserve.asset reserve.amount) h trivial).2 ?_
      rw [zero_add] at hl
      refine hlocked _ hpos hlt ⟨hl, fun q hq hmem => hx.2 q hq ?_⟩
      rwa [← hsettled]

/-! ### Orders -/

/-- The difference goes into the store with the order, or back to its owner. -/
theorem wp_insertReserved (ho : o.Funded w.precision)
    (hreserved : o.reserved =
      Finsupp.single (.locked o.userId reserve.asset) reserve.amount.toRat)
    (hdig : HasDigits w.precision.total reserve.amount.toRat) (hpos : 0 < reserve.amount.toRat)
    (hx : w.BalancedUpTo (Finsupp.single (.locked o.userId reserve.asset) reserve.amount.toRat) x) :
    w.wp (Service.insertReserved o reserve) (fun _ x' => w.Balanced x') x := by
  unfold Service.insertReserved
  refine Task.wp_bind.2 (Task.wp_attempt.2 (Task.wp_mapError.2 (wp_store.2 fun _ => ?_)))
  simp only [Store.perform, Store.insertOrder]
  cases hfound : x.store.orders.find? o.id with
  | some p =>
    refine Task.wp_bind.2 (Task.wp_mono (wp_unlockReserve hx.unchanged hdig hpos) ?_)
    rintro _ x' ⟨rfl, hx'⟩
    exact hx'
  | none =>
    refine Task.wp_pure.2 ⟨?_, hx.2⟩
    let s' : Store :=
      { x.store with
        orders := x.store.orders.put { o with sequence := x.store.nextSequence + 1 }
        nextSequence := x.store.nextSequence + 1 }
    have hbacked : w.Backed _ (after x s') := hx.1.inserted ho hfound rfl rfl rfl
    rwa [← hreserved, sub_self] at hbacked

theorem keeps_findOrder (w : Setting) (id : OrderId) :
    w.Keeps (Service.findOrder id) fun _ => True :=
  (keeps_reply (c := .getOrder id) (fun s => s.orders.find? id) fun _ _ => rfl).mapError

theorem keeps_confirmIfPending (w : Setting) (id : OrderId) :
    w.Keeps (Service.confirmIfPending id) fun _ => True :=
  Service.keeps_confirmIfPending (keeps_findOrder w id) (keeps_confirm w id)

theorem keeps_matchConfirmed (hfees : e.fees.Within w.precision) (id : OrderId) :
    w.Keeps (Service.matchConfirmed e id) fun _ => True := by
  refine Task.Keeps.bind (runs_matchIncoming hfees id).keeps.attempt fun trades _ => ?_
  cases trades with
  | ok trades => exact Task.Keeps.pure trivial
  | error e => exact Task.Keeps.pure trivial

/-- A request whose numbers have few enough digits. -/
structure Admits (w : Setting) (request : NewOrder) : Prop where
  quantity_digits : HasDigits w.precision.amount request.quantity.toRat
  price_digits : HasDigits w.precision.price request.price.toRat

theorem keeps_buildOrder (w : Setting) (request : NewOrder) :
    w.Keeps (Service.buildOrder request) fun o => ∃ stamp terms, Order.create stamp terms = .ok o ∧
      o.amount = request.quantity ∧ o.price = request.price := by
  refine Service.keeps_buildOrder (fun x hx _ => ⟨trivial, fun stamp x' hx' => ?_⟩) request
  obtain ⟨-, rfl⟩ := Prod.mk.inj hx'
  exact ⟨hx.unchanged, fun _ _ => trivial⟩

theorem keeps_createOrder (hfees : e.fees.Within w.precision) {request : NewOrder}
    (hrequest : w.Admits request) : w.Keeps (Service.createOrder e request) fun _ => True := by
  refine Task.Keeps.bind (keeps_buildOrder w request) fun o ho => ?_
  obtain ⟨stamp, terms, hcreate, hamount, hprice⟩ := ho
  have hamount_digits : HasDigits w.precision.amount o.amount.toRat :=
    hamount ▸ hrequest.quantity_digits
  have hprice_digits : HasDigits w.precision.price o.price.toRat := hprice ▸ hrequest.price_digits
  refine Task.Keeps.bind (Task.Keeps.ofExcept fun reserve h => mapError_eq_ok_iff.1 h)
    fun reserve hreserve => ?_
  have hfunded := Order.funded_of_create hcreate hamount_digits hprice_digits hreserve
  intro x hx
  refine Task.wp_bind.2 (wp_lockReserve hx (fun hlt => (hfunded hlt).2.1)
    (fun _ _ hx' => ⟨hx', fun _ h => (by cases h)⟩) ?_)
  intro x' hpos hlt hx'
  obtain ⟨ho, hdig, hreserved⟩ := hfunded hlt
  refine Task.wp_bind.2 (Task.wp_mono (wp_insertReserved ho hreserved hdig hpos hx') ?_)
  rintro (overflow | e | stored) x'' hx''
  · exact ⟨hx'', fun _ h => (by cases h)⟩
  · exact ⟨hx'', fun _ h => (by cases h)⟩
  · refine Task.Keeps.bind (keeps_confirmIfPending w stored.id) (fun confirmed _ => ?_) x'' hx''
    have hlast : ∀ trades, w.Keeps (do
        let o := (← Service.findOrder stored.id).getD stored
        let message ← Task.ofChecked o.statusMessage
        return (⟨o, trades, message⟩ : OrderPlacement)) fun _ => True := by
      intro trades
      refine Task.Keeps.bind (keeps_findOrder w stored.id) fun found _ => ?_
      refine Task.Keeps.bind (Task.Keeps.ofChecked (R := fun _ => True) fun _ _ => trivial)
        fun message _ => ?_
      exact Task.Keeps.pure trivial
    dsimp only
    split
    · exact Task.Keeps.bind (keeps_matchConfirmed hfees stored.id) fun trades _ => hlast trades
    · exact hlast []

/-! ### Cancelling -/

theorem keeps_cancelOrder (w : Setting) (id : OrderId) (user : UserId) (reason : String) :
    w.Keeps (Service.cancelOrder id user reason) fun _ => True := by
  have hget : w.Keeps (Service.getOrder id) fun _ => True := by
    refine Task.Keeps.bind (keeps_findOrder w id) fun found _ => ?_
    cases found with
    | some o => exact Task.Keeps.pure trivial
    | none => exact Task.Keeps.throw
  refine Task.Keeps.bind hget fun o _ => ?_
  dsimp only
  split
  · exact Task.Keeps.throw
  · split
    · intro x hx
      refine Task.wp_bind.2 (Task.wp_mapError.2 (wp_cancel hx ?_ ?_))
      · exact fun e => ⟨hx.unchanged, fun _ h => (by cases h)⟩
      · intro cancelled x' ho hx'
        refine Task.wp_bind.2 (Task.wp_mono (wp_releaseReserve ho hx') ?_)
        rintro _ x'' ⟨rfl, hx''⟩
        exact ⟨hx'', fun _ _ => trivial⟩
    · exact Task.Keeps.throw

theorem keeps_cancelEach (w : Setting) (reason : String) (orders : List Order) :
    w.Keeps (Service.cancelEach reason orders) fun _ => True := by
  induction orders with
  | nil => exact Task.Keeps.pure trivial
  | cons o rest ih =>
    intro x hx
    unfold Service.cancelEach
    refine Task.wp_bind.2 (Task.wp_attempt.2 (wp_cancel hx ?_ ?_))
    · intro e
      match e with
      | .order _ => exact ih _ hx.unchanged
      | .orderNotFound _ => exact ⟨hx.unchanged, fun _ h => (by cases h)⟩
      | .duplicateOrder _ => exact ⟨hx.unchanged, fun _ h => (by cases h)⟩
      | .settlementNotFound _ => exact ⟨hx.unchanged, fun _ h => (by cases h)⟩
      | .unavailable _ => exact ⟨hx.unchanged, fun _ h => (by cases h)⟩
    · intro cancelled x' ho hx'
      refine Task.wp_bind.2 (Task.wp_mono (wp_releaseReserve ho hx') ?_)
      rintro _ x'' ⟨rfl, hx''⟩
      exact Task.Keeps.bind ih (fun _ _ => Task.Keeps.pure trivial) x'' hx''

theorem keeps_cancelAll (w : Setting) (user : UserId) (reason : String) :
    w.Keeps (Service.cancelAll user reason) fun _ => True := by
  have hread : w.Keeps (Task.store (.cancellableOrders user)) fun _ => True :=
    keeps_reply (fun s => s.cancellableOrders user) fun _ _ => rfl
  exact hread.mapError.bind fun orders _ => keeps_cancelEach w reason orders

end Setting

end Bourse
