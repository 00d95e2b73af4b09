import Bourse.Exchange
import Bourse.Proofs.Ledger.Conservation
import Bourse.Proofs.Service
import Bourse.Proofs.Store.Calls

/-!
# Placing an order when calls fail

Any call may fail without an effect of its own. A request whose order is not stored leaves the store
as it was, and the ledger as well, or as it is after funds were locked and unlocked again.
-/

namespace Bourse

/-- Which calls fail, and how: a call is known by how many calls were made before it. -/
structure Failures where
  store : ℕ → StoreCall → Option StoreError
  ledger : ℕ → LedgerCall → Option LedgerError

/-- An exchange whose calls may fail, how many calls were made, and the calls to the store that
failed. -/
structure Trial extends Exchange where
  made : ℕ
  failed : List (StoreCall × StoreError)

/-- Answers the calls that do not fail. -/
def Failures.handler (f : Failures) (stamps : ℕ → Stamp) : Work.Handler Trial
  | .stamp, x => (stamps x.drawn, { x with drawn := x.drawn + 1, made := x.made + 1 })
  | .store c, x =>
    match f.store x.made c with
    | some e => (.ok (.error e), { x with made := x.made + 1, failed := x.failed ++ [(c, e)] })
    | none =>
      let (reply, store) := x.store.perform (stamps x.drawn) c
      (reply, { x with store, drawn := x.drawn + 1, made := x.made + 1 })
  | .ledger c, x =>
    match f.ledger x.made c with
    | some e => (.ok (.error e), { x with made := x.made + 1 })
    | none =>
      let (reply, ledger) := x.ledger.perform c
      (reply, { x with ledger, made := x.made + 1 })

namespace Task

variable {σ ε α β : Type} {h : Work.Handler σ} {t : Task ε α} {x : σ} {g : α → β}

/-- What is known of the outcome of a run, up to a function of the result. -/
theorem ends_of_map_eq_error {e : ε}
    (hrun : (t.work.run h x).1.map (fun r => r.map g) = .ok (.error e)) :
    t.Ends h x (.error e) (t.work.run h x).2 := by
  refine Prod.ext ?_ rfl
  rcases hr : (t.work.run h x).1 with v | e' | a <;> rw [hr] at hrun <;> cases hrun
  rfl

theorem ends_of_map_eq_ok {b : β}
    (hrun : (t.work.run h x).1.map (fun r => r.map g) = .ok (.ok b)) :
    ∃ a, g a = b ∧ t.Ends h x (.ok a) (t.work.run h x).2 := by
  rcases hr : (t.work.run h x).1 with v | e' | a <;> rw [hr] at hrun <;> cases hrun
  exact ⟨a, rfl, Prod.ext hr rfl⟩

end Task

namespace Trial

variable {f : Failures} {stamps : ℕ → Stamp} {x : Trial} {ε α : Type}

/-- A trial that begins. -/
def start (x : Exchange) : Trial := { x with made := 0, failed := [] }

/-- What a task leads to. -/
abbrev wp (f : Failures) (stamps : ℕ → Stamp) (t : Task ε α) (Q : Outcome ε α → Trial → Prop)
    (x : Trial) : Prop :=
  t.wp (Work.Handler.answers (f.handler stamps)) (fun _ _ => True) (fun _ _ => True) Q x

theorem wp_stamp {Q : Outcome ε Stamp → Trial → Prop}
    (h : ∀ stamp y, y.store = x.store → y.ledger = x.ledger → Q (.ok (.ok stamp)) y) :
    wp f stamps Task.stamp Q x :=
  Work.wp_iff_run.2 (h _ _ rfl rfl)

/-- A call to the store fails, or is carried out. -/
theorem wp_store {c : StoreCall} {Q : Outcome StoreError c.Answer → Trial → Prop}
    (hfail : ∀ e (y : Trial), y.store = x.store → y.ledger = x.ledger →
      y.failed = x.failed ++ [(c, e)] → Q (.ok (.error e)) y)
    (hdone : ∀ stamp (y : Trial), y.store = (x.store.perform stamp c).2 → y.ledger = x.ledger →
      y.failed = x.failed → Q (x.store.perform stamp c).1 y) :
    wp f stamps (Task.store c) Q x := by
  refine Task.wp_store.2 fun _ => ⟨trivial, fun reply y hy => ?_⟩
  unfold Work.Handler.answers Failures.handler at hy
  dsimp only at hy
  split at hy
  · cases hy
    exact hfail _ _ rfl rfl rfl
  · cases hy
    exact hdone _ _ rfl rfl rfl

theorem wp_ledger {c : LedgerCall} {Q : Outcome LedgerError c.Answer → Trial → Prop}
    (hfail : ∀ e (y : Trial), f.ledger x.made c = some e → y.toExchange = x.toExchange →
      Q (.ok (.error e)) y)
    (hdone : ∀ y : Trial, y.store = x.store → y.ledger = (x.ledger.perform c).2 →
      Q (x.ledger.perform c).1 y) :
    wp f stamps (Task.ledger c) Q x := by
  refine Task.wp_ledger.2 fun _ => ⟨trivial, fun reply y hy => ?_⟩
  unfold Work.Handler.answers Failures.handler at hy
  dsimp only at hy
  split at hy
  · rename_i e he
    cases hy
    exact hfail e _ he rfl
  · cases hy
    exact hdone _ rfl rfl

end Trial

/-! ### Locking and unlocking -/

namespace Ledger

variable {l l' : Ledger} {user : UserId} {asset : String} {amount : Decimal}

theorem validate_cases (l : Ledger) (user : UserId) (asset : String) (amount : Decimal) :
    (∃ answer, l.validate user asset amount = (.ok (.ok answer), l)) ∨
      ∃ e, l.validate user asset amount = (.ok (.error e), l) := by
  unfold validate
  split
  · exact Or.inl ⟨_, rfl⟩
  · exact Or.inr ⟨_, rfl⟩

/-- A lock is refused, or two postings are made. -/
theorem lock_cases (l : Ledger) (user : UserId) (asset : String) (amount : Decimal) :
    (∃ e, l.lock user asset amount = (.ok (.error e), l)) ∨
      amount.isPos = true ∧ ¬l.balance (.available user asset) < amount ∧
      l.lock user asset amount = answer (l.postAll [
        .debit (.available user asset) (.ok amount),
        .credit (.locked user asset) (.ok amount)]) fun l => l.wallet user asset := by
  unfold lock
  dsimp only
  split
  · exact Or.inl ⟨_, rfl⟩
  · rename_i hpos
    split
    · exact Or.inl ⟨_, rfl⟩
    · rename_i hroom
      exact Or.inr ⟨by simpa using hpos, hroom, rfl⟩

theorem lock_eq_error {e : LedgerError} (h : l.lock user asset amount = (.ok (.error e), l')) :
    l' = l := by
  obtain ⟨e', he⟩ | ⟨-, -, he⟩ := l.lock_cases user asset amount
  · rw [h] at he
    cases he
    rfl
  · rw [h, answer] at he
    -- Postings that are made are not answered with an error.
    cases hall : (l.postAll [.debit (.available user asset) (.ok amount),
      .credit (.locked user asset) (.ok amount)]).1 <;> rw [hall] at he <;> cases he

/-- Funds are locked and unlocked again. -/
structure Returns (l : Ledger) (user : UserId) (asset : String) (amount : Decimal) (l' : Ledger) :
    Prop where
  locks : ∃ w, (l.lock user asset amount).1 = .ok (.ok w)
  eq_unlocked : l' = ((l.lock user asset amount).2.unlock user asset amount).2

/-- What was moved from one account to another can be moved back without loss. -/
theorem postsAllExactly_back {a b : Account} (hab : a ≠ b)
    (hhold : l'.holdings = l.holdings + moved a b amount.toRat) :
    l'.PostsAllExactly [.debit b (.ok amount), .credit a (.ok amount)] := by
  have hb : (l'.balance b).toRat - amount.toRat = (l.balance b).toRat := by
    have h := DFunLike.congr_fun hhold b
    rw [Finsupp.add_apply, moved, Finsupp.sub_apply, Finsupp.single_eq_same,
      Finsupp.single_eq_of_ne hab.symm, sub_zero, holdings_apply, holdings_apply] at h
    rw [h, add_sub_cancel_right]
  have ha : (l'.balance a).toRat + amount.toRat = (l.balance a).toRat := by
    have h := DFunLike.congr_fun hhold a
    rw [Finsupp.add_apply, moved, Finsupp.sub_apply, Finsupp.single_eq_same,
      Finsupp.single_eq_of_ne hab, zero_sub, holdings_apply, holdings_apply] at h
    rw [h, neg_add_cancel_right]
  obtain ⟨c, hc, hv⟩ := Decimal.sub_of_isDecimal ⟨l.balance b, hb.symm⟩
  have hdebit : l'.PostsExactly (.debit b (.ok amount)) :=
    ⟨amount, rfl, c, mem_toOption_iff.2 hc, hv⟩
  refine ⟨hdebit, fun l'' hl'' => ⟨?_, fun _ _ => trivial⟩⟩
  obtain ⟨l₁, hpost, hhold₁, -⟩ := post_eq_ok hdebit
  obtain rfl : l₁ = l'' := Except.ok.inj (hpost.symm.trans (mem_toOption_iff.1 hl''))
  have ha₁ : (l₁.balance a).toRat = (l'.balance a).toRat := by
    have h := DFunLike.congr_fun hhold₁ a
    rwa [Finsupp.add_apply, change_debit_of_ne hab, add_zero] at h
  obtain ⟨c, hc, hv⟩ := Decimal.add?_of_isDecimal (a := l₁.balance a) (b := amount)
    ⟨l.balance a, by rw [ha₁, ha]⟩
  exact ⟨amount, rfl, c, mem_toOption_iff.2 (Decimal.add_eq_ok_iff.2 hc), hv⟩

/-- Where it is exact to lock funds, and nothing is owed, they are all there again. -/
theorem Returns.holdings_eq (h : l.Returns user asset amount l')
    (hexact : l.ComputesExactly (.call (.lock user asset amount)))
    (hlocked : 0 ≤ (l.balance (.locked user asset)).toRat) : l'.holdings = l.holdings := by
  obtain ⟨⟨w, hw⟩, rfl⟩ := h
  obtain ⟨e, he⟩ | ⟨hpos, hroom, hlock⟩ := l.lock_cases user asset amount
  · rw [he] at hw
    cases hw
  · obtain ⟨l₁, hall, hhold⟩ := (hexact hpos hroom).postAll_eq
    rw [changes_move] at hhold
    rw [hlock, hall]
    have hne : Account.available user asset ≠ .locked user asset := by simp
    have hroom' : ¬l₁.balance (.locked user asset) < amount := by
      have h := DFunLike.congr_fun hhold (.locked user asset)
      rw [Finsupp.add_apply, moved, Finsupp.sub_apply, Finsupp.single_eq_same,
        Finsupp.single_eq_of_ne hne.symm, sub_zero, holdings_apply, holdings_apply] at h
      rw [Decimal.not_lt_iff, h]
      exact le_add_of_nonneg_left hlocked
    obtain ⟨l₂, hall₂, hhold₂⟩ := (postsAllExactly_back hne hhold).postAll_eq
    have hunlock : (l₁.unlock user asset amount).2 = l₂ := by
      unfold unlock
      dsimp only
      rw [hpos, Bool.not_true, if_neg Bool.false_ne_true, if_neg hroom', hall₂]
      rfl
    show (l₁.unlock user asset amount).2.holdings = _
    rw [hunlock, hhold₂, hhold, changes_move]
    simp only [moved]
    abel

end Ledger

/-! ### Until an order is stored -/

namespace Service

/-- The answer to a request, with the order as it is stored in the end. -/
def placement (o : Order) (trades : List Trade) : Task ServiceError OrderPlacement := do
  let o := (← findOrder o.id).getD o
  let message ← Task.ofChecked o.statusMessage
  return ⟨o, trades, message⟩

/-- What is done once an order is stored. -/
def afterInsertion (e : Engine) (o : Order) : Task ServiceError OrderPlacement := do
  let trades ← if ← confirmIfPending o.id then matchConfirmed e o.id else pure []
  placement o trades

theorem createOrder_eq (e : Engine) (request : NewOrder) : createOrder e request = (do
    let o ← buildOrder request
    let reserve ← orElse .ofOrder (o.reserveFor o.amount)
    lockReserve o.userId reserve
    let o ← insertReserved o reserve
    afterInsertion e o) := rfl

end Service

/-- What a request leaves of the ledger, if its order is not stored: funds that were locked are
unlocked, unless that fails. -/
inductive Refunds (f : Failures) (l : Ledger) : Ledger → Prop where
  | untouched : Refunds f l l
  | returned {user : UserId} {asset : String} {amount : Decimal} {l' : Ledger}
    (returns : l.Returns user asset amount l') : Refunds f l l'
  | stuck {user : UserId} {asset : String} {amount : Decimal} {w : Wallet} {l' : Ledger} (n : ℕ)
    {e : LedgerError} (locks : l.lock user asset amount = (.ok (.ok w), l'))
    (failed : f.ledger n (.unlock user asset amount) = some e) : Refunds f l l'

namespace Trial

open Service

variable {f : Failures} {stamps : ℕ → Stamp} {x : Trial} {user : UserId} {reserve : Reserve}
  {o : Order} {e : Engine} {request : NewOrder}

theorem wp_lockReserve {Q : Outcome ServiceError Unit → Trial → Prop}
    (hoverflow : ∀ v y, Q (.error v) y)
    (hrefused : ∀ err (y : Trial), y.store = x.store → y.ledger = x.ledger → Q (.ok (.error err)) y)
    (hlocked : ∀ w (y : Trial), y.store = x.store →
      x.ledger.lock user reserve.asset reserve.amount = (.ok (.ok w), y.ledger) →
      Q (.ok (.ok ())) y) :
    wp f stamps (lockReserve user reserve) Q x := by
  refine Task.wp_bind.2 (Task.wp_mapError.2 (wp_ledger ?_ fun y hstore hledger => ?_))
  · intro err y _ hy
    exact hrefused _ y (congrArg Exchange.store hy) (congrArg Exchange.ledger hy)
  · simp only [Ledger.perform] at hledger ⊢
    obtain ⟨sufficient, h⟩ | ⟨err, h⟩ :=
      x.ledger.validate_cases user reserve.asset reserve.amount
    · rw [h] at hledger ⊢
      cases sufficient with
      | false => exact hrefused _ y hstore hledger
      | true =>
        refine Task.wp_bind.2 (Task.wp_mapError.2 (wp_ledger ?_ fun z hstore' hledger' => ?_))
        · intro err z _ hz
          exact hrefused _ z ((congrArg Exchange.store hz).trans hstore)
            ((congrArg Exchange.ledger hz).trans hledger)
        · rw [hledger] at hledger'
          simp only [Ledger.perform] at hledger' ⊢
          rw [hledger]
          rcases hlock : x.ledger.lock user reserve.asset reserve.amount with ⟨_ | err | w, l'⟩
          · exact hoverflow _ z
          · rw [hlock] at hledger'
            exact hrefused _ z (hstore'.trans hstore) (hledger'.trans (Ledger.lock_eq_error hlock))
          · rw [hlock] at hledger'
            refine hlocked w z (hstore'.trans hstore) ?_
            rw [hlock, hledger']
    · rw [h] at hledger ⊢
      exact hrefused _ y hstore hledger

/-- An order is stored whose funds are locked. If it cannot be stored, they are unlocked. -/
theorem wp_insertReserved {l : Ledger} {w : Wallet} {Q : Outcome ServiceError Order → Trial → Prop}
    (hlock : l.lock o.userId reserve.asset reserve.amount = (.ok (.ok w), x.ledger))
    (hoverflow : ∀ v y, Q (.error v) y)
    (hrefused : ∀ err (y : Trial), y.store = x.store → Refunds f l y.ledger →
      Q (.ok (.error err)) y)
    (hstored : ∀ sequence (y : Trial), x.store.orders.find? o.id = none →
      y.store.orders = x.store.orders.put { o with sequence } → y.store.trades = x.store.trades →
      Q (.ok (.ok { o with sequence })) y) :
    wp f stamps (insertReserved o reserve) Q x := by
  -- Whatever comes of unlocking the funds, the request fails.
  have hundo : ∀ err (y : Trial), y.store = x.store → y.ledger = x.ledger →
      wp f stamps (do unlockReserve o.userId reserve; throw err) Q y := by
    intro err y hstore hledger
    refine Task.wp_bind.2 (Task.wp_bind.2 (Task.wp_attempt.2 (wp_ledger ?_ fun z hstore' hz => ?_)))
    · intro e z he hz
      refine hrefused err z ((congrArg Exchange.store hz).trans hstore) ?_
      rw [show z.ledger = x.ledger from (congrArg Exchange.ledger hz).trans hledger]
      exact .stuck y.made hlock he
    · have hreturns : l.Returns o.userId reserve.asset reserve.amount z.ledger := by
        refine ⟨⟨w, by rw [hlock]⟩, ?_⟩
        rw [hlock, hz, hledger]
        rfl
      rcases (y.ledger.perform (.unlock o.userId reserve.asset reserve.amount)).1 with v | answer
      · exact hoverflow v z
      · exact hrefused err z (hstore'.trans hstore) (.returned hreturns)
  refine Task.wp_bind.2 (Task.wp_attempt.2 (Task.wp_mapError.2 (wp_store ?_ ?_)))
  · intro e y hstore hledger _
    exact hundo _ y hstore hledger
  · intro stamp y hstore hledger _
    simp only [Store.perform, Store.insertOrder] at hstore ⊢
    cases hfound : x.store.orders.find? o.id with
    | some p =>
      rw [hfound] at hstore
      exact hundo _ y hstore hledger
    | none =>
      rw [hfound] at hstore
      exact hstored _ y hfound (by rw [hstore]; rfl) (by rw [hstore]; rfl)

/-- A request is refused before its order is stored, or goes on with the stored order. -/
theorem wp_createOrder {Q : Outcome ServiceError OrderPlacement → Trial → Prop}
    (hoverflow : ∀ v y, Q (.error v) y)
    (hrefused : ∀ err (y : Trial), y.store = x.store → Refunds f x.ledger y.ledger →
      Q (.ok (.error err)) y)
    (hstored : ∀ o (y : Trial), x.store.orders.find? o.id = none →
      y.store.orders = x.store.orders.put o → y.store.trades = x.store.trades →
      wp f stamps (afterInsertion e o) Q y) :
    wp f stamps (createOrder e request) Q x := by
  rw [createOrder_eq]
  have hbuild : (buildOrder request).Keeps (Work.Handler.answers (f.handler stamps))
      (fun _ _ => True) (fun _ _ => True) (fun y => y.store = x.store ∧ y.ledger = x.ledger) _ :=
    keeps_buildOrder (fun y hy => wp_stamp fun stamp z hstore hledger =>
      ⟨⟨hstore.trans hy.1, hledger.trans hy.2⟩, fun _ _ => trivial⟩) request
  refine Task.wp_bind.2 (Task.wp_mono (hbuild x ⟨rfl, rfl⟩) ?_)
  rintro (v | err | o) y ⟨⟨hstore, hledger⟩, -⟩
  · exact hoverflow v y
  · exact hrefused err y hstore (hledger ▸ .untouched)
  refine Task.wp_bind.2 (Task.wp_ofExcept.2 ?_)
  cases (o.reserveFor o.amount).mapError ServiceError.ofOrder with
  | error err => exact hrefused err y hstore (hledger ▸ .untouched)
  | ok reserve =>
    refine Task.wp_bind.2 (wp_lockReserve hoverflow ?_ ?_)
    · intro err z hstore' hledger'
      exact hrefused err z (hstore'.trans hstore) ((hledger'.trans hledger) ▸ .untouched)
    · intro w z hstore' hlock
      rw [hledger] at hlock
      refine Task.wp_bind.2 (wp_insertReserved hlock hoverflow ?_ ?_)
      · intro err z' hstore'' hrefunds
        exact hrefused err z' (hstore''.trans (hstore'.trans hstore)) hrefunds
      · intro sequence z' hnone horders htrades
        rw [hstore', hstore] at hnone horders htrades
        exact hstored _ z' hnone horders htrades

end Trial

end Bourse
