import Bourse.Exchange
import Bourse.Proofs.Reserve.Trades

/-!
# What is locked is what is owed

The invariant of the exchange: what the ledger holds locked is what the open orders have reserved
together with what the unsettled trades still take. Each call moves at most two of the three, and
between two calls of one operation they may be out of step by the funds of one order; the invariant
names that difference.
-/

namespace Bourse

theorem sum_apply (l : List (Account →₀ ℚ)) (x : Account) : l.sum x = (l.map fun f => f x).sum :=
  map_list_sum (Finsupp.applyAddHom x) l

/-- What the settlement of a trade still takes: nothing, if the trade is among the settled ones. -/
noncomputable def SettlementRecord.due (settled : List TradeId) (r : SettlementRecord) :
    Account →₀ ℚ :=
  if r.trade.id ∈ settled then 0 else r.trade.debits r.buyerRelease

/-- A further settled trade takes its part off what is due. -/
theorem sum_due_cons {records : List SettlementRecord} {settled : List TradeId}
    {r : SettlementRecord} (hnodup : (records.map fun r => r.trade.id).Nodup) (hr : r ∈ records)
    (hnew : r.trade.id ∉ settled) :
    (records.map (SettlementRecord.due (r.trade.id :: settled))).sum +
        r.trade.debits r.buyerRelease = (records.map (SettlementRecord.due settled)).sum := by
  induction records with
  | nil => cases hr
  | cons q rest ih =>
    rw [List.map_cons, List.nodup_cons] at hnodup
    obtain ⟨hq, hrest⟩ := hnodup
    rw [List.map_cons, List.map_cons, List.sum_cons, List.sum_cons]
    have hother : ∀ q : SettlementRecord, q.trade.id ≠ r.trade.id →
        q.due (r.trade.id :: settled) = q.due settled := by
      intro q hne
      simp only [SettlementRecord.due, List.mem_cons, hne, false_or]
    rcases List.mem_cons.1 hr with rfl | hr
    · have hsame : rest.map (SettlementRecord.due (r.trade.id :: settled)) =
          rest.map (SettlementRecord.due settled) := by
        refine List.map_congr_left fun q hmem => hother q fun e => hq ?_
        exact List.mem_map.2 ⟨q, hmem, e⟩
      have hnone : r.due (r.trade.id :: settled) = 0 := if_pos List.mem_cons_self
      have hall : r.due settled = r.trade.debits r.buyerRelease := if_neg hnew
      rw [hsame, hnone, hall, zero_add, add_comm]
    · have hne : q.trade.id ≠ r.trade.id := by
        intro e
        exact hq (List.mem_map.2 ⟨r, hr, e.symm⟩)
      rw [hother q hne, add_assoc, ih hrest hr]

/-- A match takes off the reserves what it takes off those of its two orders. -/
theorem Store.Matches.sum_reserved {s : Store} {stamp : Stamp} {makerId takerId : OrderId}
    {quantity : Decimal} {fees : FeeSchedule} {maker taker : Order} {m : Match}
    (hm : s.Matches stamp makerId takerId quantity fees maker taker m) {f g : Account →₀ ℚ}
    (hmaker : m.maker.reserved + f = maker.reserved)
    (htaker : m.taker.reserved + g = taker.reserved) :
    ((s.record m).orders.entries.map Order.reserved).sum + (f + g) =
      (s.orders.entries.map Order.reserved).sum := by
  have hput := OrderTable.sum_map_put Order.reserved s.orders m.maker
  have hput' := OrderTable.sum_map_put Order.reserved (s.orders.put m.maker) m.taker
  rw [hm.filled_maker_id, hm.maker_found, Option.elim_some, ← hmaker] at hput
  rw [OrderTable.find?_put, hm.filled_maker_id, hm.filled_taker_id, if_neg hm.ne, hm.taker_found,
    Option.elim_some, ← htaker] at hput'
  have hfreed : ((s.orders.put m.maker).entries.map Order.reserved).sum + f =
      (s.orders.entries.map Order.reserved).sum := by
    refine add_right_cancel (b := m.maker.reserved) ?_
    rw [← hput]
    abel
  have hfreed' : ((s.record m).orders.entries.map Order.reserved).sum + g =
      ((s.orders.put m.maker).entries.map Order.reserved).sum := by
    refine add_right_cancel (b := m.taker.reserved) ?_
    rw [← hput']
    show (((s.orders.put m.maker).put m.taker).entries.map Order.reserved).sum + _ + _ = _
    abel
  rw [← hfreed, ← hfreed']
  abel

/-- The names that a sequence of stamps has given before its `n`-th. -/
def Drawn (stamps : ℕ → Stamp) (n : ℕ) (id : Uuid) : Prop := ∃ k < n, (stamps k).id = id

theorem Drawn.mono {stamps : ℕ → Stamp} {n m : ℕ} {id : Uuid} (h : Drawn stamps n id)
    (hnm : n ≤ m) : Drawn stamps m id := by
  obtain ⟨k, hk, hid⟩ := h
  exact ⟨k, hk.trans_le hnm, hid⟩

/-- What is fixed while the exchange runs: how many digits its numbers have, how much there is of
each asset, and the stamps, of which the first few have different names. -/
structure Setting where
  precision : Precision
  total : String → ℚ
  /-- All there is of an asset fits into one number. -/
  total_lt : ∀ asset, total asset * 10 ^ precision.total < Decimal.bound
  stamps : ℕ → Stamp
  limit : ℕ
  /-- No name comes twice among these. -/
  not_drawn : ∀ n < limit, ¬Drawn stamps n (stamps n).id

namespace Setting

variable (w : Setting)

/-- Orders are funded, and each trade has one record, which is payable and never given up. -/
structure Sound (n : ℕ) (s : Store) : Prop where
  funded : ∀ o ∈ s.orders.entries, o.Funded w.precision
  payable : ∀ r ∈ s.settlements, Ledger.Payable w.precision.total r.trade r.buyerRelease
  trades_eq : s.settlements.map SettlementRecord.trade = s.trades
  ids_nodup : (s.settlements.map fun r => r.trade.id).Nodup
  ids_drawn : ∀ r ∈ s.settlements, Drawn w.stamps n r.trade.id.uuid
  not_failed : ∀ r ∈ s.settlements, r.status ≠ .failed

/-- What is locked is what is owed, except for a difference. -/
structure Backed (difference : Account →₀ ℚ) (x : Exchange) : Prop where
  sound : w.Sound x.drawn x.store
  exact : x.ledger.Exact w.precision.total w.total
  settled_drawn : ∀ id ∈ x.ledger.settled, Drawn w.stamps x.drawn id.uuid
  settled_of_status : ∀ r ∈ x.store.settlements, r.status = .settled → r.trade.id ∈ x.ledger.settled
  locked_eq : ∀ user asset, x.ledger.holdings (.locked user asset) =
    ((x.store.orders.entries.map Order.reserved).sum +
      (x.store.settlements.map (SettlementRecord.due x.ledger.settled)).sum + difference)
        (.locked user asset)

/-- Records say so if their trades are settled, except for the trades named. -/
def Recorded (except : TradeId → Prop) (x : Exchange) : Prop :=
  ∀ r ∈ x.store.settlements, r.trade.id ∈ x.ledger.settled → r.status = .settled ∨ except r.trade.id

/-- What is locked is what is owed, except for a difference, and every record is up to date. -/
def BalancedUpTo (difference : Account →₀ ℚ) (x : Exchange) : Prop :=
  w.Backed difference x ∧ Recorded (fun _ => False) x

/-- What holds whenever no operation is under way. -/
abbrev Balanced (x : Exchange) : Prop := w.BalancedUpTo 0 x

variable {w} {n m : ℕ} {s s' : Store} {x : Exchange} {difference : Account →₀ ℚ}

theorem Sound.mono (h : w.Sound n s) (hnm : n ≤ m) : w.Sound m s :=
  { h with ids_drawn := fun r hr => (h.ids_drawn r hr).mono hnm }

/-- A further trade has a record, and the name that only the next stamp has. -/
theorem Sound.recorded (h : w.Sound n s) (hnew : n < w.limit) {m : Match} {r : SettlementRecord}
    (hfunded : ∀ o ∈ (s.record m).orders.entries, o.Funded w.precision) (htrade : r.trade = m.trade)
    (hid : r.trade.id = ⟨(w.stamps n).id⟩)
    (hpayable : Ledger.Payable w.precision.total r.trade r.buyerRelease)
    (hstatus : r.status = .pending) :
    w.Sound (n + 1) ((s.record m).pushSettlement r) where
  funded := hfunded
  payable := by
    intro q hmem
    rcases List.mem_append.1 hmem with hmem | hmem
    · exact h.payable q hmem
    · rw [List.mem_singleton.1 hmem]
      exact hpayable
  trades_eq := by
    show (s.settlements ++ [r]).map _ = s.trades ++ [m.trade]
    rw [List.map_append, h.trades_eq, List.map_singleton, htrade]
  ids_nodup := by
    show ((s.settlements ++ [r]).map fun r => r.trade.id).Nodup
    rw [List.map_append, List.map_singleton]
    refine List.Nodup.append h.ids_nodup (List.nodup_singleton _) ?_
    rw [List.disjoint_singleton]
    intro hmem
    obtain ⟨q, hq, he⟩ := List.mem_map.1 hmem
    have hdrawn := h.ids_drawn q hq
    rw [he, hid] at hdrawn
    exact w.not_drawn n hnew hdrawn
  ids_drawn := by
    intro q hmem
    rcases List.mem_append.1 hmem with hmem | hmem
    · exact (h.ids_drawn q hmem).mono (Nat.le_succ _)
    · rw [List.mem_singleton.1 hmem, hid]
      exact ⟨n, Nat.lt_succ_self _, rfl⟩
  not_failed := by
    intro q hmem
    rcases List.mem_append.1 hmem with hmem | hmem
    · exact h.not_failed q hmem
    · rw [List.mem_singleton.1 hmem, hstatus]
      simp

/-- The exchange after a call to the store that drew a stamp. -/
def after (x : Exchange) (s : Store) : Exchange := { x with store := s, drawn := x.drawn + 1 }

namespace Backed

/-- A call that changes nothing. -/
theorem unchanged (h : w.Backed difference x) : w.Backed difference (after x x.store) where
  sound := h.sound.mono (Nat.le_succ _)
  exact := h.exact
  settled_drawn id hid := (h.settled_drawn id hid).mono (Nat.le_succ _)
  settled_of_status := h.settled_of_status
  locked_eq := h.locked_eq

/-- An order is put: the difference makes up for the one in its place. -/
theorem put (h : w.Backed difference x) {o : Order} (ho : o.Funded w.precision)
    (horders : s'.orders = x.store.orders.put o) (htrades : s'.trades = x.store.trades)
    (hsettlements : s'.settlements = x.store.settlements) :
    w.Backed (difference + (x.store.orders.find? o.id).elim 0 Order.reserved - o.reserved)
      (after x s') where
  sound :=
    { funded := by
        intro q hq
        rw [show (after x s').store = s' from rfl, horders, OrderTable.mem_put_iff] at hq
        rcases hq with rfl | ⟨hq, -⟩
        · exact ho
        · exact h.sound.funded q hq
      payable := hsettlements ▸ h.sound.payable
      trades_eq := by
        rw [show (after x s').store = s' from rfl, hsettlements, htrades, h.sound.trades_eq]
      ids_nodup := hsettlements ▸ h.sound.ids_nodup
      ids_drawn := hsettlements ▸ (h.sound.mono (Nat.le_succ _)).ids_drawn
      not_failed := hsettlements ▸ h.sound.not_failed }
  exact := h.exact
  settled_drawn id hid := (h.settled_drawn id hid).mono (Nat.le_succ _)
  settled_of_status := hsettlements ▸ h.settled_of_status
  locked_eq user asset := by
    have hsum := OrderTable.sum_map_put Order.reserved x.store.orders o
    rw [show (after x s').store = s' from rfl, hsettlements, horders]
    refine (h.locked_eq user asset).trans (DFunLike.congr_fun ?_ (Account.locked user asset))
    rw [← add_sub_cancel_right (x.store.orders.entries.map Order.reserved).sum o.reserved, ← hsum]
    show _ = _ + (x.store.settlements.map (SettlementRecord.due x.ledger.settled)).sum + _
    abel

/-- A new order takes over the difference that is its reserve. -/
theorem inserted (h : w.Backed difference x) {o : Order} (ho : o.Funded w.precision)
    (hnew : x.store.orders.find? o.id = none)
    (horders : s'.orders = x.store.orders.put { o with sequence := x.store.nextSequence + 1 })
    (htrades : s'.trades = x.store.trades) (hsettlements : s'.settlements = x.store.settlements) :
    w.Backed (difference - o.reserved) (after x s') := by
  have hput := h.put (ho.numbered (x.store.nextSequence + 1)) horders htrades hsettlements
  rw [hnew] at hput
  rwa [Option.elim_none, add_zero] at hput

/-- An order that takes a step leaves a difference if it is finished by it. -/
theorem transitioned (h : w.Backed difference x) {id : OrderId} {t : Transition} {now : Instant}
    {o o' : Order} (hfound : x.store.orders.find? id = some o) (happ : t.apply o now = .ok o')
    (horders : s'.orders = x.store.orders.put o') (htrades : s'.trades = x.store.trades)
    (hsettlements : s'.settlements = x.store.settlements) :
    w.Backed (difference + o.reserved - o'.reserved) (after x s') := by
  have hmem := OrderTable.mem_of_find? hfound
  have hid : o'.id = id := by
    obtain ⟨status, notes, ho', -⟩ := Transition.apply_eq_ok happ
    have hid := OrderTable.id_of_find? hfound
    rw [ho']
    exact hid
  have hput := h.put ((h.sound.funded o hmem).apply happ).1 horders htrades hsettlements
  rwa [hid, hfound, Option.elim_some] at hput

/-- Settlement records change, but not the trades they are of nor what they release. -/
theorem setSettlements (h : w.Backed difference x) {records : List SettlementRecord}
    (hsame : records.map (fun r => (r.trade, r.buyerRelease)) =
      x.store.settlements.map fun r => (r.trade, r.buyerRelease))
    (hstatus : ∀ r ∈ records, r.status ≠ .failed ∧
      (r.status = .settled → r.trade.id ∈ x.ledger.settled)) :
    w.Backed difference (after x (x.store.withSettlements records)) := by
  have hmap : ∀ {β : Type} (f : Trade × Decimal → β),
      records.map (fun r => f (r.trade, r.buyerRelease)) =
        x.store.settlements.map fun r => f (r.trade, r.buyerRelease) := by
    intro β f
    have := congrArg (List.map f) hsame
    rwa [List.map_map, List.map_map] at this
  have hmem : ∀ r ∈ records, ∃ q ∈ x.store.settlements,
      q.trade = r.trade ∧ q.buyerRelease = r.buyerRelease := by
    intro r hr
    have hr' := List.mem_map_of_mem (f := fun r : SettlementRecord => (r.trade, r.buyerRelease)) hr
    rw [hsame, List.mem_map] at hr'
    obtain ⟨q, hq, he⟩ := hr'
    exact ⟨q, hq, (Prod.mk.inj he).1, (Prod.mk.inj he).2⟩
  refine ⟨⟨h.sound.funded, ?_, ?_, ?_, ?_, fun r hr => (hstatus r hr).1⟩, h.exact,
    h.unchanged.settled_drawn, fun r hr => (hstatus r hr).2, ?_⟩
  · intro r hr
    obtain ⟨q, hq, htrade, hrelease⟩ := hmem r hr
    rw [← htrade, ← hrelease]
    exact h.sound.payable q hq
  · exact (hmap fun r => r.1).trans h.sound.trades_eq
  · have hids := hmap fun r => r.1.id
    show (records.map fun r => r.trade.id).Nodup
    rw [hids]
    exact h.sound.ids_nodup
  · intro r hr
    obtain ⟨q, hq, htrade, -⟩ := hmem r hr
    rw [← htrade]
    exact (h.sound.ids_drawn q hq).mono (Nat.le_succ _)
  · intro user asset
    have hdue := hmap fun r => if r.1.id ∈ x.ledger.settled then 0 else r.1.debits r.2
    refine (h.locked_eq user asset).trans (DFunLike.congr_fun ?_ _)
    show _ + (x.store.settlements.map (SettlementRecord.due x.ledger.settled)).sum + _ =
      _ + (records.map (SettlementRecord.due x.ledger.settled)).sum + _
    exact congrArg (fun due => _ + due + _) (congrArg List.sum hdue.symm)

/-- A match frees what the settlement of its trade will take. -/
theorem matched (h : w.Backed difference x) (hnew : x.drawn < w.limit) {makerId takerId : OrderId}
    {quantity : Decimal} {fees : FeeSchedule} {maker taker : Order} {m : Match}
    (hfees : fees.Within w.precision) (hq : HasDigits w.precision.amount quantity.toRat)
    (hm : x.store.Matches (w.stamps x.drawn) makerId takerId quantity fees maker taker m) :
    ∃ r, SettlementRecord.create (w.stamps x.drawn).time m.trade
        (Store.buyLimit m.maker m.taker) = .ok r ∧ r.trade = m.trade ∧ r.status = .pending ∧
      r.trade.id ∉ x.ledger.settled ∧
      w.Backed difference (after x ((x.store.record m).pushSettlement r)) := by
  have hmaker := h.sound.funded maker (OrderTable.mem_of_find? hm.maker_found)
  have htaker := h.sound.funded taker (OrderTable.mem_of_find? hm.taker_found)
  obtain ⟨hmaker', hmaker_sum⟩ := hmaker.fill hq hm.maker_filled
  obtain ⟨htaker', htaker_sum⟩ := htaker.fill hq hm.taker_filled
  obtain ⟨r, hr, htrade, hstatus, hpayable, hdebits⟩ :=
    hm.tradable.exists_record hmaker htaker hfees hq hm.trade_created (w.stamps x.drawn).time
  have hid : r.trade.id = ⟨(w.stamps x.drawn).id⟩ := by
    rw [htrade]
    exact hm.trade_id
  have hunsettled : r.trade.id ∉ x.ledger.settled := by
    intro hmem
    have hdrawn := h.settled_drawn _ hmem
    rw [hid] at hdrawn
    exact w.not_drawn x.drawn hnew hdrawn
  have hfunded : ∀ o ∈ (x.store.record m).orders.entries, o.Funded w.precision := by
    intro o ho
    rcases hm.mem_orders_iff.1 ho with rfl | rfl | ⟨ho, -, -⟩
    · exact hmaker'
    · exact htaker'
    · exact h.sound.funded o ho
  have hsound := h.sound.recorded hnew hfunded htrade hid (htrade ▸ hpayable) hstatus
  refine ⟨r, by rw [hm.buyLimit_eq, hr], htrade, hstatus, hunsettled, hsound, h.exact,
    h.unchanged.settled_drawn, ?_, ?_⟩
  · intro q hmem hq
    rcases List.mem_append.1 hmem with hmem | hmem
    · exact h.settled_of_status q hmem hq
    · rw [List.mem_singleton.1 hmem, hstatus] at hq
      cases hq
  · intro user asset
    refine (h.locked_eq user asset).trans (DFunLike.congr_fun ?_ _)
    have hfreed := hm.sum_reserved hmaker_sum htaker_sum
    have hdue : r.due x.ledger.settled = Finsupp.single maker.account (maker.cost quantity.toRat) +
        Finsupp.single taker.account (taker.cost quantity.toRat) := by
      rw [SettlementRecord.due, if_neg hunsettled, htrade, hdebits]
      exact hm.tradable.sum_pair fun o => Finsupp.single o.account (o.cost quantity.toRat)
    show _ = ((x.store.record m).orders.entries.map Order.reserved).sum +
      ((x.store.settlements ++ [r]).map (SettlementRecord.due x.ledger.settled)).sum + _
    rw [List.map_append, List.sum_append, List.map_singleton, List.sum_singleton, hdue, ← hfreed]
    abel

/-! ### Calls to the ledger -/

/-- The balances change on accounts that are not locked, and on locked ones by the difference. -/
theorem setLedger (h : w.Backed difference x) {l : Ledger} {difference' : Account →₀ ℚ}
    (hl : l.Exact w.precision.total w.total) (hsettled : l.settled = x.ledger.settled)
    (hlocked : ∀ user asset, l.holdings (.locked user asset) + difference (.locked user asset) =
      x.ledger.holdings (.locked user asset) + difference' (.locked user asset)) :
    w.Backed difference' { x with ledger := l } where
  sound := h.sound
  exact := hl
  settled_drawn := hsettled ▸ h.settled_drawn
  settled_of_status := hsettled ▸ h.settled_of_status
  locked_eq user asset := by
    have hx := h.locked_eq user asset
    have hl := hlocked user asset
    rw [Finsupp.add_apply] at hx ⊢
    show l.holdings _ = (_ + (x.store.settlements.map (SettlementRecord.due l.settled)).sum)
      (Account.locked user asset) + _
    rw [hsettled]
    linarith

/-- A lock is refused, or the difference grows by what it locks. -/
theorem locked (h : w.Backed difference x) (user : UserId) (asset : String) {amount : Decimal}
    (hdig : amount.toRat * 10 ^ w.precision.total < Decimal.bound →
      HasDigits w.precision.total amount.toRat) :
    (∃ e, x.ledger.lock user asset amount = (.ok (.error e), x.ledger)) ∨
    ∃ wallet l, x.ledger.lock user asset amount = (.ok (.ok wallet), l) ∧ 0 < amount.toRat ∧
      amount.toRat * 10 ^ w.precision.total < Decimal.bound ∧ l.settled = x.ledger.settled ∧
      w.Backed (difference + Finsupp.single (.locked user asset) amount.toRat)
        { x with ledger := l } := by
  obtain hrefused | ⟨wallet, l, hlock, hpos, -, hlt, hhold, hsettled, hl⟩ :=
    h.exact.lock_cases w.precision.total_le w.total_lt user asset hdig
  · exact Or.inl hrefused
  · refine Or.inr ⟨wallet, l, hlock, hpos, hlt, hsettled, h.setLedger hl hsettled ?_⟩
    intro user' asset'
    rw [hhold, Finsupp.add_apply, Finsupp.add_apply, Ledger.moved, Finsupp.sub_apply,
      Finsupp.single_eq_of_ne (a := Account.available user asset) (by simp)]
    ring

theorem due_nonneg {r : SettlementRecord} {settled : List TradeId} {d : ℕ}
    (hr : Ledger.Payable d r.trade r.buyerRelease) (y : Account) : 0 ≤ r.due settled y := by
  unfold SettlementRecord.due
  split
  · exact le_refl 0
  · rw [Trade.debits, Finsupp.add_apply, Finsupp.single_apply, Finsupp.single_apply]
    have hbuyer := add_nonneg hr.quoteQuantity_nonneg hr.release_nonneg
    have hseller := hr.quantity_nonneg
    split <;> split <;> linarith

/-- What is due for a trade is held locked, and so is the difference. -/
theorem covered (h : w.Backed difference x) (user : UserId) (asset : String) :
    difference (.locked user asset) ≤ x.ledger.holdings (.locked user asset) ∧
    ∀ r ∈ x.store.settlements, r.due x.ledger.settled (.locked user asset) +
      difference (.locked user asset) ≤ x.ledger.holdings (.locked user asset) := by
  have horders : 0 ≤ (x.store.orders.entries.map Order.reserved).sum (.locked user asset) := by
    rw [sum_apply]
    refine List.sum_nonneg fun v hv => ?_
    obtain ⟨f, hf, rfl⟩ := List.mem_map.1 hv
    obtain ⟨o, ho, rfl⟩ := List.mem_map.1 hf
    have hfunded := h.sound.funded o ho
    rw [hfunded.reserved_eq]
    split
    · exact le_refl 0
    · rw [Finsupp.single_apply]
      split
      · exact hfunded.remaining_cost_nonneg
      · exact le_refl 0
  have hdue : ∀ v ∈ (x.store.settlements.map (SettlementRecord.due x.ledger.settled)).map
      (fun f => f (Account.locked user asset)), 0 ≤ v := by
    intro v hv
    obtain ⟨f, hf, rfl⟩ := List.mem_map.1 hv
    obtain ⟨r, hr, rfl⟩ := List.mem_map.1 hf
    exact due_nonneg (h.sound.payable r hr) _
  have heq := h.locked_eq user asset
  rw [Finsupp.add_apply, Finsupp.add_apply, sum_apply (x.store.settlements.map _)] at heq
  have hsum := List.sum_nonneg hdue
  refine ⟨by linarith, fun r hr => ?_⟩
  have hle := List.single_le_sum hdue _ (List.mem_map_of_mem (List.mem_map_of_mem hr))
  linarith

/-- The funds of one order that are the difference can be unlocked. -/
theorem unlocked {user : UserId} {asset : String} {amount : Decimal}
    (h : w.Backed (Finsupp.single (.locked user asset) amount.toRat) x)
    (hdig : HasDigits w.precision.total amount.toRat) (hpos : 0 < amount.toRat) :
    ∃ l, x.ledger.unlock user asset amount = (.ok (.ok ()), l) ∧ l.settled = x.ledger.settled ∧
      w.Backed 0 { x with ledger := l } := by
  have hle := (h.covered user asset).1
  rw [Finsupp.single_eq_same] at hle
  obtain ⟨l, hunlock, hhold, hsettled, hl⟩ :=
    h.exact.unlock_eq w.precision.total_le w.total_lt hdig hpos hle
  refine ⟨l, hunlock, hsettled, h.setLedger hl hsettled ?_⟩
  intro user' asset'
  rw [hhold, Finsupp.add_apply, Ledger.moved, Finsupp.sub_apply,
    Finsupp.single_eq_of_ne (a := Account.available user asset) (by simp), Finsupp.zero_apply]
  ring

/-- The settlement of a recorded trade is answered, and what is due is paid. -/
theorem settled (h : w.Backed 0 x) {r : SettlementRecord} (hr : r ∈ x.store.settlements) :
    ∃ l, x.ledger.settle r.trade r.buyerRelease = (.ok (.ok ()), l) ∧
      (∀ id, id ∈ l.settled ↔ id = r.trade.id ∨ id ∈ x.ledger.settled) ∧
      w.Backed 0 { x with ledger := l } := by
  have hpayable := h.sound.payable r hr
  by_cases hmem : r.trade.id ∈ x.ledger.settled
  · refine ⟨x.ledger, Ledger.settle_of_mem hpayable.release_nonneg hmem, ?_, h⟩
    intro id
    exact ⟨Or.inr, fun hid => hid.elim (fun e => e ▸ hmem) fun hid => hid⟩
  · have hcovered : ∀ y, r.trade.debits r.buyerRelease y ≤ x.ledger.holdings y := by
      intro y
      cases y with
      | available user asset =>
        rw [Ledger.debits_available]
        exact h.exact.nonneg _
      | fees asset =>
        rw [Ledger.debits_fees]
        exact h.exact.nonneg _
      | locked user asset =>
        have hle := (h.covered user asset).2 r hr
        rwa [SettlementRecord.due, if_neg hmem, Finsupp.zero_apply, add_zero] at hle
    obtain ⟨l, hsettle, hhold, hsettled, hl⟩ :=
      h.exact.settle_eq w.precision.total_le w.total_lt hpayable hmem hcovered
    have hiff : ∀ id, id ∈ l.settled ↔ id = r.trade.id ∨ id ∈ x.ledger.settled := by
      intro id
      rw [hsettled, List.mem_cons]
    refine ⟨l, hsettle, hiff, h.sound, hl, ?_, ?_, ?_⟩
    · intro id hid
      rcases (hiff id).1 hid with rfl | hid
      · exact h.sound.ids_drawn r hr
      · exact h.settled_drawn id hid
    · intro q hq hstatus
      exact (hiff _).2 (Or.inr (h.settled_of_status q hq hstatus))
    · intro user asset
      have hsum := sum_due_cons h.sound.ids_nodup hr hmem
      have heq := h.locked_eq user asset
      rw [← hsum] at heq
      show l.holdings _ = (_ + (x.store.settlements.map (SettlementRecord.due l.settled)).sum + _)
        (Account.locked user asset)
      rw [hhold, hsettled, Finsupp.add_apply, Finsupp.sub_apply, Ledger.credits_locked]
      simp only [Finsupp.add_apply] at heq ⊢
      linarith

end Backed

end Setting

end Bourse
