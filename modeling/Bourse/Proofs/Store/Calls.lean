import Bourse.Call
import Bourse.Proofs.Order.Steps
import Bourse.Proofs.Store.Index
import Mathlib.Algebra.BigOperators.Group.List.Basic
import Mathlib.Data.List.Nodup
import Mathlib.Tactic.Abel

/-!
# What a call does to the store

A call changes the orders and trades of a store in one of three ways: it adds a new order, it takes
one order a step further, or it matches two different orders and appends their trade. Every other
call, and every call that fails, leaves them as they are.
-/

namespace Bourse

namespace OrderTable

variable {t : OrderTable} {o p : Order} {id : OrderId}

theorem nodup_entries (t : OrderTable) : t.entries.Nodup := List.Nodup.of_map _ t.ids_nodup

theorem find?_eq_some_iff : t.find? id = some o ↔ o ∈ t.entries ∧ o.id = id := by
  constructor
  · intro h
    exact ⟨List.mem_of_find?_eq_some h, by simpa using List.find?_some h⟩
  · rintro ⟨hmem, rfl⟩
    cases hfound : t.find? o.id with
    | none => exact absurd (List.find?_eq_none.1 hfound o hmem) (by simp)
    | some p =>
      have hp : p ∈ t.entries := List.mem_of_find?_eq_some hfound
      have hid : p.id = o.id := by simpa using List.find?_some hfound
      rw [List.inj_on_of_nodup_map t.ids_nodup hp hmem hid]

theorem mem_of_find? (h : t.find? id = some o) : o ∈ t.entries := (find?_eq_some_iff.1 h).1

theorem id_of_find? (h : t.find? id = some o) : o.id = id := (find?_eq_some_iff.1 h).2

theorem find?_of_mem (h : o ∈ t.entries) : t.find? o.id = some o := find?_eq_some_iff.2 ⟨h, rfl⟩

theorem find?_eq_none_iff : t.find? id = none ↔ ∀ o ∈ t.entries, o.id ≠ id := by
  simp [find?, List.find?_eq_none]

theorem mem_put_iff : p ∈ (t.put o).entries ↔ p = o ∨ p ∈ t.entries ∧ p.id ≠ o.id := by
  have hfind : p ∈ (t.put o).entries ↔ (t.put o).find? p.id = some p :=
    ⟨find?_of_mem, mem_of_find?⟩
  rw [hfind, find?_put]
  split
  · rename_i h
    rw [Option.some.injEq]
    exact ⟨fun e => Or.inl e.symm, fun e => e.elim Eq.symm fun hp => absurd h.symm hp.2⟩
  · rename_i h
    rw [find?_eq_some_iff]
    constructor
    · exact fun hp => Or.inr ⟨hp.1, fun e => h e.symm⟩
    · rintro (rfl | hp)
      · exact absurd rfl h
      · exact ⟨hp.1, rfl⟩

/-- No order is lost when one is put. -/
theorem length_le_put (t : OrderTable) (o : Order) :
    t.entries.length ≤ (t.put o).entries.length := by
  have hids := congrArg List.length (map_id_putEntry o t.entries)
  rw [List.length_map] at hids
  show _ ≤ (putEntry o t.entries).length
  rw [hids]
  split
  · rw [List.length_map]
  · rw [List.length_append, List.length_map]
    exact Nat.le_add_right _ _

/-- An order that is put takes the place of the one with its name in every sum. -/
theorem sum_map_put {M : Type} [AddCommMonoid M] (f : Order → M) (t : OrderTable) (o : Order) :
    ((t.put o).entries.map f).sum + ((t.find? o.id).elim 0 f) = (t.entries.map f).sum + f o := by
  simp only [put, find?]
  generalize t.entries = l
  induction l with
  | nil => simp [putEntry]
  | cons p rest ih =>
    by_cases hp : p.id = o.id
    · simp only [putEntry, if_pos hp, List.map_cons, List.sum_cons]
      rw [List.find?_cons_of_pos (by simpa using hp), Option.elim_some]
      abel
    · simp only [putEntry, if_neg hp, List.map_cons, List.sum_cons]
      rw [List.find?_cons_of_neg (by simpa using hp), add_assoc, ih, add_assoc]

end OrderTable

namespace Store

variable {s : Store} {stamp : Stamp} {makerId takerId : OrderId} {quantity : Decimal}
  {fees : FeeSchedule} {maker taker : Order} {m : Match}

/-- Two stored orders are matched. -/
structure Matches (s : Store) (stamp : Stamp) (makerId takerId : OrderId) (quantity : Decimal)
    (fees : FeeSchedule) (maker taker : Order) (m : Match) : Prop where
  ne : makerId ≠ takerId
  maker_found : s.orders.find? makerId = some maker
  taker_found : s.orders.find? takerId = some taker
  executed : (Match.execute stamp maker taker quantity fees).run = .ok (.ok m)

/-- An attempt to match changes nothing, or it matches the two orders. Then their trade gets a
settlement record, unless the amount to be released overflows. -/
theorem commitMatch_cases (s : Store) (stamp : Stamp) (makerId takerId : OrderId)
    (quantity : Decimal) (fees : FeeSchedule) :
    (∃ cause, s.commitMatch stamp makerId takerId quantity fees = (.ok (.conflict cause), s)) ∨
    (∃ e, s.commitMatch stamp makerId takerId quantity fees = (.error e, s)) ∨
    ∃ maker taker m, s.Matches stamp makerId takerId quantity fees maker taker m ∧
      ((∃ e, SettlementRecord.create stamp.time m.trade (buyLimit m.maker m.taker) = .error e ∧
          s.commitMatch stamp makerId takerId quantity fees = (.error e, s.record m)) ∨
        ∃ r, SettlementRecord.create stamp.time m.trade (buyLimit m.maker m.taker) = .ok r ∧
          s.commitMatch stamp makerId takerId quantity fees =
            (.ok (.executed m.trade), (s.record m).pushSettlement r)) := by
  unfold commitMatch conflict
  split
  · exact Or.inl ⟨_, rfl⟩
  · rename_i hne
    split
    · exact Or.inl ⟨_, rfl⟩
    · exact Or.inl ⟨_, rfl⟩
    · rename_i maker taker hmaker htaker
      split
      · exact Or.inr (Or.inl ⟨_, rfl⟩)
      · exact Or.inl ⟨_, rfl⟩
      · rename_i m hm
        refine Or.inr (Or.inr ⟨maker, taker, m, ⟨hne, hmaker, htaker, hm⟩, ?_⟩)
        split
        · rename_i e he
          exact Or.inl ⟨e, he, rfl⟩
        · rename_i r hr
          exact Or.inr ⟨r, hr, rfl⟩

namespace Matches

variable (h : s.Matches stamp makerId takerId quantity fees maker taker m)

include h

theorem maker_id : maker.id = makerId := OrderTable.id_of_find? h.maker_found

theorem taker_id : taker.id = takerId := OrderTable.id_of_find? h.taker_found

theorem tradable : Tradable maker taker quantity := (Match.execute_eq_ok_iff.1 h.executed).1

theorem trade_created : Trade.create stamp maker taker quantity fees = .ok m.trade :=
  (Match.execute_eq_ok_iff.1 h.executed).2.1

theorem maker_filled : (maker.fill quantity .maker stamp.time).run = .ok (.ok m.maker) :=
  (Match.execute_eq_ok_iff.1 h.executed).2.2.1

theorem taker_filled : (taker.fill quantity .taker stamp.time).run = .ok (.ok m.taker) :=
  (Match.execute_eq_ok_iff.1 h.executed).2.2.2

theorem filled_maker_id : m.maker.id = makerId :=
  (Order.sameTerms_of_fill h.maker_filled).id_eq.trans h.maker_id

theorem filled_taker_id : m.taker.id = takerId :=
  (Order.sameTerms_of_fill h.taker_filled).id_eq.trans h.taker_id

theorem trade_id : m.trade.id = ⟨stamp.id⟩ := by
  obtain ⟨-, -, -, q, -, b, -, f, -, ht⟩ := Trade.create_eq_ok_iff.1 h.trade_created
  rw [ht]

theorem trade_quantity : m.trade.quantity = quantity := by
  obtain ⟨-, -, -, q, -, b, -, f, -, ht⟩ := Trade.create_eq_ok_iff.1 h.trade_created
  rw [ht]

theorem trade_price : m.trade.price = maker.price := by
  obtain ⟨-, -, -, q, -, b, -, f, -, ht⟩ := Trade.create_eq_ok_iff.1 h.trade_created
  rw [ht]

theorem trade_maker : m.trade.makerOrderId = makerId := by
  obtain ⟨-, -, -, q, -, b, -, f, -, ht⟩ := Trade.create_eq_ok_iff.1 h.trade_created
  rw [ht]
  exact h.maker_id

theorem trade_taker : m.trade.takerOrderId = takerId := by
  obtain ⟨-, -, -, q, -, b, -, f, -, ht⟩ := Trade.create_eq_ok_iff.1 h.trade_created
  rw [ht]
  exact h.taker_id

theorem buyLimit_eq : buyLimit m.maker m.taker = h.tradable.buy.price := by
  have hmaker := Order.sameTerms_of_fill h.maker_filled
  have htaker := Order.sameTerms_of_fill h.taker_filled
  rw [buyLimit, hmaker.side_eq, hmaker.price_eq, htaker.price_eq, Tradable.buy, Trade.buyAndSell]
  cases maker.side <;> rfl

/-- A trade is one of its two orders and of no other. -/
theorem involvesOrder_iff (id : OrderId) :
    m.trade.involvesOrder id = true ↔ id = makerId ∨ id = takerId := by
  obtain ⟨-, -, -, q, -, b, -, f, -, ht⟩ := Trade.create_eq_ok_iff.1 h.trade_created
  have hor : ∀ a b : OrderId, (decide (a = id) || decide (b = id)) = true ↔ id = a ∨ id = b := by
    intro a b
    rw [Bool.or_eq_true, decide_eq_true_eq, decide_eq_true_eq, @eq_comm _ a, @eq_comm _ b]
  rw [ht, ← h.maker_id, ← h.taker_id]
  unfold Trade.involvesOrder Trade.buyAndSell
  cases maker.side with
  | buy => exact hor maker.id taker.id
  | sell => exact (hor taker.id maker.id).trans or_comm

/-- The orders after a match: the two that were filled, and the others as they were. -/
theorem mem_orders_iff {p : Order} : p ∈ ((s.orders.put m.maker).put m.taker).entries ↔
    p = m.maker ∨ p = m.taker ∨ p ∈ s.orders.entries ∧ p.id ≠ makerId ∧ p.id ≠ takerId := by
  have hne : m.maker.id ≠ m.taker.id := by
    rw [h.filled_maker_id, h.filled_taker_id]
    exact h.ne
  rw [OrderTable.mem_put_iff, OrderTable.mem_put_iff, h.filled_maker_id, h.filled_taker_id]
  constructor
  · rintro (hp | ⟨hp | ⟨hp, h1⟩, h2⟩)
    · exact Or.inr (Or.inl hp)
    · exact Or.inl hp
    · exact Or.inr (Or.inr ⟨hp, h1, h2⟩)
  · rintro (rfl | hp | ⟨hp, h1, h2⟩)
    · exact Or.inr ⟨Or.inl rfl, by rw [← h.filled_taker_id]; exact hne⟩
    · exact Or.inl hp
    · exact Or.inr ⟨Or.inr ⟨hp, h1⟩, h2⟩

/-- Each order after a match was there before, and was filled or left as it was. -/
theorem exists_before {p : Order} (hp : p ∈ ((s.orders.put m.maker).put m.taker).entries) :
    ∃ o ∈ s.orders.entries,
      p = o ∨ ∃ role, (o.fill quantity role stamp.time).run = .ok (.ok p) := by
  rcases h.mem_orders_iff.1 hp with rfl | rfl | ⟨hp, -, -⟩
  · exact ⟨maker, OrderTable.mem_of_find? h.maker_found, Or.inr ⟨_, h.maker_filled⟩⟩
  · exact ⟨taker, OrderTable.mem_of_find? h.taker_found, Or.inr ⟨_, h.taker_filled⟩⟩
  · exact ⟨p, hp, Or.inl rfl⟩

/-- No order is lost in a match. -/
theorem exists_after {o : Order} (ho : o ∈ s.orders.entries) :
    ∃ p ∈ ((s.orders.put m.maker).put m.taker).entries,
      p = o ∨ ∃ role, (o.fill quantity role stamp.time).run = .ok (.ok p) := by
  have hfound := OrderTable.find?_of_mem ho
  by_cases hmaker : o.id = makerId
  · rw [hmaker, h.maker_found] at hfound
    obtain rfl := Option.some.inj hfound
    exact ⟨m.maker, h.mem_orders_iff.2 (Or.inl rfl), Or.inr ⟨_, h.maker_filled⟩⟩
  · by_cases htaker : o.id = takerId
    · rw [htaker, h.taker_found] at hfound
      obtain rfl := Option.some.inj hfound
      exact ⟨m.taker, h.mem_orders_iff.2 (Or.inr (Or.inl rfl)), Or.inr ⟨_, h.taker_filled⟩⟩
    · exact ⟨o, h.mem_orders_iff.2 (Or.inr (Or.inr ⟨ho, hmaker, htaker⟩)), Or.inl rfl⟩

end Matches

/-! ### Settlement records -/

section Settlements

variable {id : TradeId} {now : Instant} {place : ℕ} {r r' : SettlementRecord} {s' : Store}

theorem claimSettlement_eq_ok {found : Option SettlementRecord}
    (h : s.claimSettlement id now = .ok (found, s')) :
    ∃ place r, s.requireSettlement id = .ok (place, r) ∧
      ((r.claim? now = none ∧ found = none ∧ s' = s) ∨
        ∃ r', r.claim? now = some r' ∧ found = some r' ∧ s' = s.setSettlement place r') := by
  unfold claimSettlement at h
  obtain ⟨⟨place, r⟩, hr, h⟩ := bind_eq_ok_iff.1 h
  have hplace := (requireSettlement_eq_ok hr).1
  refine ⟨place, r, hr, ?_⟩
  obtain ⟨rfl, rfl⟩ := Prod.mk.inj (Except.ok.inj h)
  rw [updateSettlement_eq _ hplace]
  cases hc : r.claim? now with
  | none => exact Or.inl ⟨rfl, rfl, setSettlement_claimed hplace hc⟩
  | some r' => exact Or.inr ⟨r', rfl, rfl, by rw [SettlementRecord.claimed, hc, Option.getD_some]⟩

theorem recordAttempt_eq_ok {failure : Option String} {maxAttempts : UInt32}
    (h : s.recordAttempt id failure maxAttempts now = .ok (r', s')) :
    ∃ place r, s.requireSettlement id = .ok (place, r) ∧
      r' = r.recordAttempt failure maxAttempts now ∧ s' = s.setSettlement place r' := by
  unfold recordAttempt at h
  obtain ⟨⟨place, r⟩, hr, h⟩ := bind_eq_ok_iff.1 h
  obtain ⟨rfl, rfl⟩ := Prod.mk.inj (Except.ok.inj h)
  exact ⟨place, r, hr, rfl, updateSettlement_eq _ (requireSettlement_eq_ok hr).1⟩

theorem releaseClaim_eq_ok (h : s.releaseClaim id = .ok s') :
    ∃ place r, s.requireSettlement id = .ok (place, r) ∧
      s' = s.setSettlement place r.releaseClaim := by
  unfold releaseClaim at h
  obtain ⟨⟨place, r⟩, hr, h⟩ := bind_eq_ok_iff.1 h
  obtain rfl := Except.ok.inj h
  exact ⟨place, r, hr, updateSettlement_eq _ (requireSettlement_eq_ok hr).1⟩

/-! What is done to a record once it is found. -/

section Found

variable (h : s.requireSettlement id = .ok (place, r))

include h

theorem perform_claimSettlement (hclaim : r.claim? stamp.time = some r') :
    s.perform stamp (.claimSettlement id) = (.ok (.ok (some r')), s.setSettlement place r') := by
  simp only [perform, claimSettlement, h]
  dsimp only [bind, Except.bind]
  rw [updateSettlement_eq _ (requireSettlement_eq_ok h).1, SettlementRecord.claimed, hclaim]
  rfl

theorem perform_claimSettlement_none (hclaim : r.claim? stamp.time = none) :
    s.perform stamp (.claimSettlement id) = (.ok (.ok none), s) := by
  have hplace := (requireSettlement_eq_ok h).1
  simp only [perform, claimSettlement, h]
  dsimp only [bind, Except.bind]
  rw [updateSettlement_eq _ hplace, setSettlement_claimed hplace hclaim, hclaim]
  rfl

theorem perform_recordAttempt (failure : Option String) (limit : UInt32) :
    s.perform stamp (.recordAttempt id failure limit) =
      (.ok (.ok (r.recordAttempt failure limit stamp.time)),
        s.setSettlement place (r.recordAttempt failure limit stamp.time)) := by
  simp only [perform, recordAttempt, h]
  dsimp only [bind, Except.bind]
  rw [updateSettlement_eq _ (requireSettlement_eq_ok h).1]
  rfl

theorem perform_releaseClaim :
    s.perform stamp (.releaseClaim id) = (.ok (.ok ()), s.setSettlement place r.releaseClaim) := by
  simp only [perform, releaseClaim, h]
  dsimp only [bind, Except.bind]
  rw [updateSettlement_eq _ (requireSettlement_eq_ok h).1]
  rfl

end Found

end Settlements

/-- What a call does to the orders and the trades of a store. -/
inductive OrdersStep (s : Store) (stamp : Stamp) (s' : Store) : StoreCall → Prop where
  | unchanged {c : StoreCall} (orders_eq : s'.orders = s.orders)
    (trades_eq : s'.trades = s.trades) :
    OrdersStep s stamp s' c
  | inserted {o : Order} (fresh : s.orders.find? o.id = none)
    (orders_eq : s'.orders = s.orders.put { o with sequence := s.nextSequence + 1 })
    (trades_eq : s'.trades = s.trades) : OrdersStep s stamp s' (.insertOrder o)
  | transitioned {id : OrderId} {t : Transition} {o o' : Order} (found : s.orders.find? id = some o)
    (applied : t.apply o stamp.time = .ok o') (orders_eq : s'.orders = s.orders.put o')
    (trades_eq : s'.trades = s.trades) : OrdersStep s stamp s' (.transitionOrder id t)
  | matched {makerId takerId : OrderId} {quantity : Decimal} {fees : FeeSchedule}
    {maker taker : Order} {m : Match}
    (matches' : s.Matches stamp makerId takerId quantity fees maker taker m)
    (orders_eq : s'.orders = (s.orders.put m.maker).put m.taker)
    (trades_eq : s'.trades = s.trades ++ [m.trade]) :
    OrdersStep s stamp s' (.commitMatch makerId takerId quantity fees)

theorem ordersStep (s : Store) (stamp : Stamp) (c : StoreCall) :
    OrdersStep s stamp (s.perform stamp c).2 c := by
  cases c with
  | insertOrder o =>
    simp only [perform, insertOrder]
    cases hfound : s.orders.find? o.id with
    | some p => exact .unchanged rfl rfl
    | none => exact .inserted hfound rfl rfl
  | transitionOrder id t =>
    simp only [perform, transitionOrder]
    cases hfound : s.orders.find? id with
    | none => exact .unchanged rfl rfl
    | some o =>
      dsimp only
      cases happ : t.apply o stamp.time with
      | error e => exact .unchanged rfl rfl
      | ok o' => exact .transitioned hfound happ rfl rfl
  | commitMatch makerId takerId quantity fees =>
    simp only [perform]
    obtain ⟨cause, h⟩ | ⟨e, h⟩ | ⟨maker, taker, m, hm, ⟨e, -, h⟩ | ⟨r, -, h⟩⟩ :=
      commitMatch_cases s stamp makerId takerId quantity fees
    · rw [h]
      exact .unchanged rfl rfl
    · rw [h]
      exact .unchanged rfl rfl
    · rw [h]
      exact .matched hm rfl rfl
    · rw [h]
      exact .matched hm rfl rfl
  | claimSettlement id =>
    simp only [perform]
    cases h : s.claimSettlement id stamp.time with
    | error e => exact .unchanged rfl rfl
    | ok result =>
      obtain ⟨found, s'⟩ := result
      obtain ⟨place, r, -, ⟨-, -, rfl⟩ | ⟨r', -, -, rfl⟩⟩ := claimSettlement_eq_ok h
      · exact .unchanged rfl rfl
      · exact .unchanged rfl rfl
  | recordAttempt id failure maxAttempts =>
    simp only [perform]
    cases h : s.recordAttempt id failure maxAttempts stamp.time with
    | error e => exact .unchanged rfl rfl
    | ok result =>
      obtain ⟨r', s'⟩ := result
      obtain ⟨place, r, -, -, rfl⟩ := recordAttempt_eq_ok h
      exact .unchanged rfl rfl
  | releaseClaim id =>
    simp only [perform]
    cases h : s.releaseClaim id with
    | error e => exact .unchanged rfl rfl
    | ok s' =>
      obtain ⟨place, r, -, rfl⟩ := releaseClaim_eq_ok h
      exact .unchanged rfl rfl
  | claimPending limit => exact .unchanged rfl rfl
  | _ => exact .unchanged rfl rfl

/-- Each order after a call was there before, as it is or one step earlier, or is just inserted. -/
theorem exists_before_perform {c : StoreCall} {p : Order}
    (hp : p ∈ (s.perform stamp c).2.orders.entries) :
    (∃ o ∈ s.orders.entries, p = o ∨ o.Changes p) ∨
    ∃ o, c = .insertOrder o ∧ s.orders.find? o.id = none ∧
      p = { o with sequence := s.nextSequence + 1 } := by
  cases ordersStep s stamp c with
  | unchanged horders _ => exact Or.inl ⟨p, horders ▸ hp, Or.inl rfl⟩
  | inserted fresh horders _ =>
    rw [horders, OrderTable.mem_put_iff] at hp
    rcases hp with hp | ⟨hp, -⟩
    · exact Or.inr ⟨_, rfl, fresh, hp⟩
    · exact Or.inl ⟨p, hp, Or.inl rfl⟩
  | transitioned found applied horders _ =>
    rw [horders, OrderTable.mem_put_iff] at hp
    rcases hp with rfl | ⟨hp, -⟩
    · exact Or.inl ⟨_, OrderTable.mem_of_find? found, Or.inr (.applied applied)⟩
    · exact Or.inl ⟨p, hp, Or.inl rfl⟩
  | matched hm horders _ =>
    rw [horders] at hp
    obtain ⟨o, ho, h | ⟨role, h⟩⟩ := hm.exists_before hp
    · exact Or.inl ⟨o, ho, Or.inl h⟩
    · exact Or.inl ⟨o, ho, Or.inr (.filled h)⟩

/-- Each order is still there after a call, as it was or one step further. -/
theorem exists_after_perform (stamp : Stamp) (c : StoreCall) {o : Order}
    (ho : o ∈ s.orders.entries) :
    ∃ p ∈ (s.perform stamp c).2.orders.entries, p = o ∨ o.Changes p := by
  cases ordersStep s stamp c with
  | unchanged horders _ => exact ⟨o, horders ▸ ho, Or.inl rfl⟩
  | inserted fresh horders _ =>
    rw [horders]
    exact ⟨o, OrderTable.mem_put_iff.2 (Or.inr ⟨ho, OrderTable.find?_eq_none_iff.1 fresh o ho⟩),
      Or.inl rfl⟩
  | @transitioned id t p p' found applied horders _ =>
    rw [horders]
    have hchanges : p.Changes p' := .applied applied
    by_cases hid : o.id = p'.id
    · rw [← OrderTable.id_of_find? found, ← hchanges.sameTerms.id_eq, ← hid,
        OrderTable.find?_of_mem ho] at found
      obtain rfl := Option.some.inj found
      exact ⟨p', OrderTable.mem_put_iff.2 (Or.inl rfl), Or.inr hchanges⟩
    · exact ⟨o, OrderTable.mem_put_iff.2 (Or.inr ⟨ho, hid⟩), Or.inl rfl⟩
  | matched hm horders _ =>
    rw [horders]
    obtain ⟨p, hp, h | ⟨role, h⟩⟩ := hm.exists_after ho
    · exact ⟨p, hp, Or.inl h⟩
    · exact ⟨p, hp, Or.inr (.filled h)⟩

/-- Orders are never removed. -/
theorem length_le_perform (s : Store) (stamp : Stamp) (c : StoreCall) :
    s.orders.entries.length ≤ (s.perform stamp c).2.orders.entries.length := by
  cases ordersStep s stamp c with
  | unchanged horders _ => rw [horders]
  | inserted _ horders _ =>
    rw [horders]
    exact OrderTable.length_le_put _ _
  | transitioned _ _ horders _ =>
    rw [horders]
    exact OrderTable.length_le_put _ _
  | matched _ horders _ =>
    rw [horders]
    exact (OrderTable.length_le_put _ _).trans (OrderTable.length_le_put _ _)

/-! ### Sequences of calls -/

/-- The store after calls of anyone, one after the other. -/
def afterCalls (s : Store) (calls : List (Stamp × StoreCall)) : Store :=
  calls.foldl (fun s c => (s.perform c.1 c.2).2) s

/-- What each call of a sequence preserves, the whole sequence preserves. -/
theorem afterCalls_induction {P : Store → Prop} {calls : List (Stamp × StoreCall)} (h : P s)
    (hstep : ∀ s stamp c, (stamp, c) ∈ calls → P s → P (s.perform stamp c).2) :
    P (s.afterCalls calls) := by
  induction calls generalizing s with
  | nil => exact h
  | cons call rest ih =>
    obtain ⟨stamp, c⟩ := call
    exact ih (hstep s stamp c (by simp) h) fun s stamp c hc => hstep s stamp c (by simp [hc])

end Store

end Bourse
