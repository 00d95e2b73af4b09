import Bourse.Opening
import Bourse.Proofs.Reserve.Placing

/-!
# The reserves of the exchange

Whatever operations are carried out, one after the other, on an exchange that opens with deposits
only: what a user has locked of an asset is what the user's open orders reserve of it together with
what the user still owes of it for unsettled trades. So whatever a settlement takes is there, and no
settlement is ever refused. The operations come one after the other, but the markets of a pass are
matched side by side, and their calls may come in any turns.
-/

namespace Bourse

/-- What the exchange is asked to do, by users or by the clock. -/
inductive Operation where
  | create (request : NewOrder)
  | confirm (id : OrderId)
  | cancel (id : OrderId) (user : UserId) (reason : String)
  | cancelAll (user : UserId) (reason : String)
  /-- The markets are matched side by side, in turns. -/
  | pass (turns : List ℕ)
  | drain (settler : Settler)

namespace Operation

/-- The work of an operation. -/
def work (e : Engine) : Operation → Work Unit
  | create request => Task.ignoring (Service.createOrder e request)
  | confirm id => Task.ignoring (Service.confirmIfPending id)
  | cancel id user reason => Task.ignoring (Service.cancelOrder id user reason)
  | cancelAll user reason => Task.ignoring (Service.cancelAll user reason)
  | pass turns => Task.ignoring (e.runPass turns)
  | drain settler => Task.ignoring settler.drain

/-- The work of several operations, one after the other. -/
def workAll (e : Engine) : List Operation → Work Unit
  | [] => .done ()
  | op :: ops => (op.work e).bind fun _ => workAll e ops

/-- An operation that asks for nothing with too many digits. -/
def Within (p : Precision) : Operation → Prop
  | create request => HasDigits p.amount request.quantity.toRat ∧
      HasDigits p.price request.price.toRat
  | _ => True

end Operation

/-- The exchange after several operations. -/
def Exchange.afterOperations (e : Engine) (stamps : ℕ → Stamp) (x : Exchange)
    (ops : List Operation) : Exchange :=
  ((Operation.workAll e ops).run (Exchange.handler stamps) x).2

/-- What the settlement of a record takes, unless it is settled. -/
noncomputable def SettlementRecord.owed (r : SettlementRecord) : Account →₀ ℚ :=
  if r.status = .settled then 0 else r.trade.debits r.buyerRelease

/-- What open orders reserve and unsettled trades take. -/
noncomputable def Store.owed (s : Store) : Account →₀ ℚ :=
  (s.orders.entries.map Order.reserved).sum + (s.settlements.map SettlementRecord.owed).sum

/-- All that is deposited of an asset. -/
def depositTotal (deposits : List SeedBalance) (asset : String) : ℚ :=
  ((deposits.filter fun b => b.asset = asset).map fun b => b.amount.toRat).sum

namespace Setting

variable {w : Setting} {x : Exchange} {e : Engine}

theorem ignoring_keeps {ε α : Type} {t : Task ε α} {R : α → Prop} (ht : w.Keeps t R)
    (hx : w.Balanced x) :
    (Task.ignoring t).wp (Work.Handler.answers (Exchange.handler w.stamps)) (stampLeft w.limit)
      settles (fun _ => w.Balanced) x :=
  Work.wp_bind.2 (Work.wp_mono (ht x hx) fun _ _ h => h.1)

/-- Every operation keeps the balance. -/
theorem operation_keeps (hfees : e.fees.Within w.precision) {op : Operation}
    (hop : op.Within w.precision) (hx : w.Balanced x) :
    (op.work e).wp (Work.Handler.answers (Exchange.handler w.stamps)) (stampLeft w.limit) settles
      (fun _ => w.Balanced) x := by
  cases op with
  | create request => exact ignoring_keeps (keeps_createOrder hfees ⟨hop.1, hop.2⟩) hx
  | confirm id => exact ignoring_keeps (keeps_confirmIfPending w id) hx
  | cancel id user reason => exact ignoring_keeps (keeps_cancelOrder w id user reason) hx
  | cancelAll user reason => exact ignoring_keeps (keeps_cancelAll w user reason) hx
  | pass turns => exact ignoring_keeps (keeps_runPass hfees turns) hx
  | drain settler => exact ignoring_keeps ((runs_drain w settler).keeps) hx

/-- And so does every sequence of them. -/
theorem operations_keep (hfees : e.fees.Within w.precision) {ops : List Operation}
    (hops : ∀ op ∈ ops, op.Within w.precision) (hx : w.Balanced x) :
    (Operation.workAll e ops).wp (Work.Handler.answers (Exchange.handler w.stamps))
      (stampLeft w.limit) settles (fun _ => w.Balanced) x := by
  induction ops generalizing x with
  | nil => exact hx
  | cons op ops ih =>
    refine Work.wp_bind.2 (Work.wp_mono (operation_keeps hfees (hops op List.mem_cons_self) hx) ?_)
    exact fun _ x' hx' => ih (fun q hq => hops q (List.mem_cons_of_mem op hq)) hx'

/-! ### Stamps -/

/-- Work never gives stamps back. -/
theorem drawn_le_run {α : Type} (stamps : ℕ → Stamp) (work : Work α) (x : Exchange) :
    x.drawn ≤ (work.run (Exchange.handler stamps) x).2.drawn := by
  induction work generalizing x with
  | done a => exact le_refl _
  | call c next ih =>
    refine le_trans ?_ (ih _ _)
    cases c with
    | stamp => exact Nat.le_succ _
    | store c => exact Nat.le_succ _
    | ledger c => exact le_refl _

/-- Each call of a piece of work finds a stamp left, if the work draws no more than there are. -/
theorem eachCall_stampLeft {α : Type} {stamps : ℕ → Stamp} {limit : ℕ} (work : Work α)
    (h : (work.run (Exchange.handler stamps) x).2.drawn ≤ limit) :
    work.EachCall (Exchange.handler stamps) (stampLeft limit) x := by
  induction work generalizing x with
  | done a => trivial
  | call c next ih =>
    refine ⟨?_, ih _ h⟩
    have hle := (drawn_le_run stamps (next (Exchange.handler stamps c x).1)
      (Exchange.handler stamps c x).2).trans h
    cases c with
    | stamp => exact hle
    | store c => exact hle
    | ledger c => trivial

/-! ### The opening -/

/-- Deposits that are in range all together are exact, and lock nothing. -/
theorem seeded_exact {d : ℕ} (hd : d ≤ 28) {deposits : List SeedBalance} {l : Ledger}
    {total : String → ℚ} (hl : l.Exact d total)
    (hdeposits : ∀ b ∈ deposits, 0 < b.amount.toRat ∧ HasDigits d b.amount.toRat)
    (htotal : ∀ a, (total a + depositTotal deposits a) * 10 ^ d < Decimal.bound) :
    ∃ l', l.seeded deposits = .ok l' ∧ l'.Exact d (fun a => total a + depositTotal deposits a) ∧
      l'.settled = l.settled ∧
      ∀ user asset, l'.holdings (.locked user asset) = l.holdings (.locked user asset) := by
  induction deposits generalizing l total with
  | nil =>
    refine ⟨l, rfl, ?_, rfl, fun _ _ => rfl⟩
    simpa [depositTotal] using hl
  | cons b rest ih =>
    obtain ⟨⟨hpos, hdig⟩, hrest⟩ := List.forall_mem_cons.1 hdeposits
    have hsum : ∀ a, depositTotal (b :: rest) a =
        (if b.asset = a then b.amount.toRat else 0) + depositTotal rest a := by
      intro a
      by_cases ha : b.asset = a <;> simp [depositTotal, ha]
    have hrest_nonneg : ∀ a, 0 ≤ depositTotal rest a := by
      intro a
      refine List.sum_nonneg fun v hv => ?_
      obtain ⟨q, hq, rfl⟩ := List.mem_map.1 hv
      exact (hrest q (List.mem_filter.1 hq).1).1.le
    have hmid : ∀ a, (total a + if b.asset = a then b.amount.toRat else 0) * 10 ^ d <
        Decimal.bound := by
      intro a
      refine lt_of_le_of_lt (mul_le_mul_of_nonneg_right ?_ (by positivity)) (htotal a)
      rw [hsum]
      linarith [hrest_nonneg a]
    have hfirst : ∀ a, total a * 10 ^ d < Decimal.bound := by
      intro a
      refine lt_of_le_of_lt (mul_le_mul_of_nonneg_right ?_ (by positivity)) (hmid a)
      split <;> linarith
    obtain ⟨l₁, hdeposit, hhold, hset, hl₁⟩ :=
      hl.deposit_eq hd hfirst b.userId hdig hpos.le (fun _ => rfl) hmid
    obtain ⟨l', hseeded, hl', hset', hlocked⟩ := ih hl₁ hrest (by
      intro a
      rw [add_assoc, ← hsum]
      exact htotal a)
    refine ⟨l', ?_, ?_, hset'.trans hset, fun user asset => ?_⟩
    · rw [Ledger.seeded, hdeposit]
      exact hseeded
    · simpa only [hsum, add_assoc] using hl'
    · rw [hlocked, hhold, Finsupp.add_apply, Finsupp.single_eq_of_ne (by simp), add_zero]

/-- The exchange is balanced when it opens. -/
theorem balanced_opening {l : Ledger} (hl : l.Exact w.precision.total w.total)
    (hsettled : l.settled = []) (hlocked : ∀ user asset, l.holdings (.locked user asset) = 0) :
    w.Balanced ⟨Store.empty, l, 0⟩ := by
  refine ⟨⟨⟨?_, ?_, rfl, List.nodup_nil, ?_, ?_⟩, hl, ?_, ?_, ?_⟩, ?_⟩
  · exact fun o ho => (by cases ho)
  · exact fun r hr => (by cases hr)
  · exact fun r hr => (by cases hr)
  · exact fun r hr => (by cases hr)
  · intro id hid
    rw [hsettled] at hid
    cases hid
  · exact fun r hr => (by cases hr)
  · intro user asset
    rw [hlocked]
    simp [Store.empty, OrderTable.empty]
  · exact fun r hr => (by cases hr)

/-- Where everything is balanced, what is due is what the records say is owed. -/
theorem Balanced.locked_eq (hx : w.Balanced x) (user : UserId) (asset : String) :
    (x.ledger.balance (.locked user asset)).toRat = x.store.owed (.locked user asset) := by
  have hdue : x.store.settlements.map (SettlementRecord.due x.ledger.settled) =
      x.store.settlements.map SettlementRecord.owed := by
    refine List.map_congr_left fun r hr => ?_
    have hiff : r.trade.id ∈ x.ledger.settled ↔ r.status = .settled :=
      ⟨fun hmem => (hx.2 r hr hmem).resolve_right fun h => h, hx.1.settled_of_status r hr⟩
    simp only [SettlementRecord.due, SettlementRecord.owed, hiff]
  have h := hx.1.locked_eq user asset
  rw [hdue, add_zero] at h
  exact h

end Setting

/-- However an exchange that opens with deposits only is used, and in whatever turns the markets of
its passes are matched: what each user has locked of an asset is what the user's open orders reserve
of it and the user's unsettled trades take of it, and every settlement that is asked of the ledger is
made. -/
theorem Exchange.locked_eq_owed (p : Precision) (e : Engine) (hfees : e.fees.Within p)
    (stamps : ℕ → Stamp) (deposits : List SeedBalance)
    (hdeposits : ∀ b ∈ deposits, 0 < b.amount.toRat ∧ HasDigits p.total b.amount.toRat)
    (htotal : ∀ asset, depositTotal deposits asset * 10 ^ p.total < Decimal.bound) :
    ∃ l, Ledger.empty.seeded deposits = .ok l ∧
      ∀ ops : List Operation, (∀ op ∈ ops, op.Within p) →
        let opening : Exchange := ⟨Store.empty, l, 0⟩
        let x := Exchange.afterOperations e stamps opening ops
        (∀ i < x.drawn, ∀ j < x.drawn, (stamps i).id = (stamps j).id → i = j) →
        (∀ user asset, (x.ledger.balance (.locked user asset)).toRat =
          x.store.owed (.locked user asset)) ∧
        (∀ o ∈ x.store.orders.entries, o.status.isTerminal = false →
          ∃ reserve, o.reserveFor o.remaining = .ok reserve) ∧
        x.store.settlements.map SettlementRecord.trade = x.store.trades ∧
        (Operation.workAll e ops).EachCall (Exchange.handler stamps) settles opening := by
  have hempty : Ledger.empty.Exact p.total fun _ => 0 := by
    refine ⟨fun y => ?_, fun y => ?_, fun a => ?_⟩ <;> rw [Ledger.holdings_empty]
    · exact HasDigits.zero _
    · exact le_refl 0
    · exact map_zero _
  obtain ⟨l, hseeded, hl, hsettled, hlocked⟩ :=
    Setting.seeded_exact (d := p.total) p.total_le hempty hdeposits
      (by simpa only [zero_add] using htotal)
  refine ⟨l, hseeded, ?_⟩
  intro ops hops opening x hnames
  let w : Setting :=
    { precision := p
      total := fun a => 0 + depositTotal deposits a
      total_lt := by simpa only [zero_add] using htotal
      stamps := stamps
      limit := x.drawn
      not_drawn := by
        rintro n hn ⟨k, hk, hid⟩
        exact absurd (hnames k (hk.trans hn) n hn hid) hk.ne }
  have hopening : w.Balanced opening := by
    refine Setting.balanced_opening hl hsettled fun user asset => ?_
    rw [hlocked, Ledger.holdings_empty]
    rfl
  have hstamps := Setting.eachCall_stampLeft (x := opening) (Operation.workAll e ops)
    (le_refl x.drawn)
  have hkeeps := Setting.operations_keep (w := w) hfees hops hopening
  have hx : w.Balanced x := Work.run_of_wp hkeeps hstamps
  refine ⟨hx.locked_eq, fun o ho _ => ?_, hx.1.sound.trades_eq, Work.eachCall_of_wp hkeeps hstamps⟩
  have hfunded := hx.1.sound.funded o ho
  obtain ⟨c, hc, -⟩ := hfunded.reserveFor_eq hfunded.measured.remaining_digits
    hfunded.measured.remaining_nonneg hfunded.measured.remaining_le
  exact ⟨_, hc⟩

/-- A thousand dollars of one user and ten units of gold of another. -/
def twoDeposits : List SeedBalance :=
  [⟨⟨1⟩, "USD", .ofWord 1000⟩, ⟨⟨2⟩, "XAU", .ofWord 10⟩]

/-- A buy of five units of gold at 100 dollars, and a sell of three at 90. -/
def twoOrders : List Operation :=
  let order user side quantity price : Operation :=
    .create ⟨⟨user⟩, side, "XAU/USD", .ofWord quantity, .ofWord price, .spot, none⟩
  [order 1 .buy 5 100, order 2 .sell 3 90]

/-- Stamps with the numbers as names. -/
def numberedStamps (n : ℕ) : Stamp := ⟨.ofNat n, .epoch⟩

theorem Exchange.locked_eq_owed_twoOrders :
    let p : Precision := ⟨0, 0, 3, by decide⟩
    let e : Engine := ⟨.standard, .create 3 10, 100, false⟩
    ∃ l, Ledger.empty.seeded twoDeposits = .ok l ∧
      let x := Exchange.afterOperations e numberedStamps ⟨Store.empty, l, 0⟩ twoOrders
      (e.fees.Within p ∧ (∀ op ∈ twoOrders, op.Within p) ∧ x.drawn = 18) ∧
      x.store.trades.length = 1 ∧
      ∀ user asset, (x.ledger.balance (.locked user asset)).toRat =
        x.store.owed (.locked user asset) := by
  intro p e
  have hfees : e.fees.Within p := FeeSchedule.standard_within (le_refl 3)
  have hword : ∀ n : UInt64, HasDigits 0 (Decimal.ofWord n).toRat := fun n =>
    Decimal.hasDigits_scale _
  have hops : ∀ op ∈ twoOrders, op.Within p := by
    simp only [twoOrders, List.forall_mem_cons]
    exact ⟨⟨hword _, hword _⟩, ⟨hword _, hword _⟩, by simp⟩
  have hvalue : ∀ n : UInt64, (Decimal.ofWord n).toRat = n.toNat := by
    intro n
    rw [Decimal.ofWord, Decimal.toRat, pow_zero, div_one]
    rfl
  have hthousand : (Decimal.ofWord 1000).toRat = 1000 := hvalue 1000
  have hten : (Decimal.ofWord 10).toRat = 10 := hvalue 10
  obtain ⟨l, hl, h⟩ := Exchange.locked_eq_owed p e hfees numberedStamps twoDeposits
    (by
      simp only [twoDeposits, List.forall_mem_cons, hthousand, hten]
      exact ⟨⟨by norm_num, HasDigits.mono ⟨1000, by norm_num⟩ (Nat.zero_le _)⟩,
        ⟨by norm_num, HasDigits.mono ⟨10, by norm_num⟩ (Nat.zero_le _)⟩, by simp⟩)
    (by
      intro asset
      have hle : depositTotal twoDeposits asset ≤ 1010 := by
        by_cases h₁ : "USD" = asset <;> by_cases h₂ : "XAU" = asset <;>
          simp [depositTotal, twoDeposits, h₁, h₂, hthousand, hten] <;> norm_num
      refine lt_of_le_of_lt (mul_le_mul_of_nonneg_right hle (by positivity)) ?_
      norm_num [bound_eq, Precision.total, p])
  have hrun : (Ledger.empty.seeded twoDeposits).map (fun l =>
      let x := Exchange.afterOperations e numberedStamps ⟨Store.empty, l, 0⟩ twoOrders
      (x.drawn, x.store.trades.length)) = .ok (18, 1) := by
    decide +kernel
  rw [hl] at hrun
  obtain ⟨hdrawn, htrades⟩ := Prod.mk.inj (Except.ok.inj hrun)
  refine ⟨l, hl, ⟨hfees, hops, hdrawn⟩, htrades, (h twoOrders hops ?_).1⟩
  intro i hi j hj hid
  rw [hdrawn] at hi hj
  have hnat := congrArg (fun u : Uuid => u.value.toNat) hid
  simp only [numberedStamps, Uuid.ofNat, BitVec.toNat_ofNat] at hnat
  omega

end Bourse
