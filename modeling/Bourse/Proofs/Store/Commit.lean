import Bourse.Proofs.Settlement.Outbox
import Bourse.Proofs.Store.Lifecycle

/-!
# An attempt to match

In a store that was used in any way, an attempt to match two orders either finds that they can be
matched and does all of it, or it is a conflict and does nothing. There is no third outcome: the
settlement record is built after the orders and the trade are written, and what goes into it was in
range when the orders were created.
-/

namespace Bourse

/-- Whether a product was out of range. -/
def MatchConflict.isOverflow : MatchConflict → Bool
  | .invalidPair (.refused (.invalidArgument (.overflows ..))) => true
  | _ => false

/-! ### Conflicts -/

section Refused

variable {α β : Type} {x : ExceptT MatchConflict Checked β} {f : α → ExceptT MatchConflict Checked β}
  {cause : MatchConflict} {c : Prop} [Decidable c]

/-- A computation ends in a conflict, and not because a product was out of range. -/
def Refused (x : ExceptT MatchConflict Checked β) : Prop :=
  ∃ cause, x.run = .ok (.error cause) ∧ cause.isOverflow = false

theorem refused_unless (hcause : cause.isOverflow = false) (h : c → Refused x) :
    Refused (if c then x else throw cause >>= f) := by
  by_cases hc : c
  · rw [if_pos hc]
    exact h hc
  · rw [if_neg hc]
    exact ⟨cause, rfl, hcause⟩

theorem refused_if (hcause : cause.isOverflow = false) (h : ¬c → Refused x) :
    Refused (if c then throw cause >>= f else x) := by
  by_cases hc : c
  · rw [if_pos hc]
    exact ⟨cause, rfl, hcause⟩
  · rw [if_neg hc]
    exact h hc

theorem refused_bind {y : Except MatchConflict α}
    (hy : ∀ cause, y = .error cause → cause.isOverflow = false)
    (h : ∀ a, y = .ok a → Refused (f a)) : Refused (liftM y >>= f) := by
  cases y with
  | error cause => exact ⟨cause, rfl, hy cause rfl⟩
  | ok a => exact h a rfl

end Refused

theorem isOverflow_of_checkAvailable {quantity : Decimal} {o : Order} {cause : MatchConflict}
    (h : checkAvailable quantity o = .error cause) : cause.isOverflow = false := by
  unfold checkAvailable at h
  by_cases hrest : o.status.isResting = true
  · rw [if_pos hrest] at h
    by_cases hroom : o.remaining < quantity
    · rw [if_pos hroom] at h
      cases h
      rfl
    · rw [if_neg hroom] at h
      cases h
  · rw [if_neg hrest] at h
    cases h
    rfl

theorem Tradable.refused_of_not {stamp : Stamp} {maker taker : Order} {quantity : Decimal}
    {fees : FeeSchedule} (h : ¬Tradable maker taker quantity) :
    Refused (Match.execute stamp maker taker quantity fees) := by
  unfold Match.execute
  refine refused_unless rfl fun hquantity => ?_
  refine refused_bind (fun _ => isOverflow_of_checkAvailable) fun _ hmaker => ?_
  refine refused_bind (fun _ => isOverflow_of_checkAvailable) fun _ htaker => ?_
  refine refused_if rfl fun hsides => refused_if rfl fun hcrossing => ?_
  obtain ⟨hmaker_resting, hmaker_room⟩ := checkAvailable_eq_ok_iff.1 hmaker
  obtain ⟨htaker_resting, htaker_room⟩ := checkAvailable_eq_ok_iff.1 htaker
  have hopposite : maker.side ≠ taker.side := fun hs => hsides (buyAndSell_side_ne_iff.2 hs)
  -- Only the markets are left to differ, and the trade is refused before anything is multiplied.
  have hmarket : maker.market ≠ taker.market := fun hm => h
    ⟨hquantity, hmaker_resting, htaker_resting, hmaker_room, htaker_room, hopposite, hm, hcrossing⟩
  have htrade : Trade.create stamp maker taker quantity fees =
      .error (.invalidArgument (.differentMarkets maker.market taker.market)) := by
    unfold Trade.create
    rw [if_neg hopposite, if_pos hmarket]
    rfl
  rw [htrade]
  exact ⟨_, rfl, rfl⟩

/-- An attempt to match two orders has an outcome, if only a conflict. -/
theorem Match.exists_outcome (stamp : Stamp) (maker taker : Order) (quantity : Decimal)
    (fees : FeeSchedule) : ∃ r, (Match.execute stamp maker taker quantity fees).run = .ok r := by
  by_cases h : Tradable maker taker quantity
  · cases htrade : Trade.create stamp maker taker quantity fees with
    | ok t =>
      obtain ⟨maker', hmaker⟩ :=
        Order.exists_fill h.maker_resting h.quantity_pos h.maker_room .maker stamp.time
      obtain ⟨taker', htaker⟩ :=
        Order.exists_fill h.taker_resting h.quantity_pos h.taker_room .taker stamp.time
      exact ⟨.ok ⟨maker', taker', t⟩, Match.execute_eq_ok_iff.2 ⟨h, htrade, hmaker, htaker⟩⟩
    | error e =>
      have hmaker : checkAvailable quantity maker = .ok () :=
        checkAvailable_eq_ok_iff.2 ⟨h.maker_resting, h.maker_room⟩
      have htaker : checkAvailable quantity taker = .ok () :=
        checkAvailable_eq_ok_iff.2 ⟨h.taker_resting, h.taker_room⟩
      refine ⟨.error (.invalidPair (.refused e)), ?_⟩
      unfold Match.execute
      rw [if_pos h.quantity_pos, hmaker, htaker, htrade]
      dsimp only
      rw [if_neg fun hs => h.opposite (buyAndSell_side_ne_iff.1 hs), if_neg h.crossing]
      rfl
  · obtain ⟨cause, hcause, -⟩ : Refused (Match.execute stamp maker taker quantity fees) :=
      Tradable.refused_of_not h
    exact ⟨.error cause, hcause⟩

/-! ### Pairs that can be matched -/

/-- An order after `quantity` of it is traded, and nothing else is done to it. -/
def Order.FilledTo (o : Order) (quantity : Decimal) (role : OrderRole) (now : Instant)
    (o' : Order) : Prop :=
  ∃ remaining, o.remaining.sub quantity = .ok remaining ∧ o' =
    { o with
      remaining := remaining
      role := o.roleAfter role
      status := if remaining.isZero then .completed else .partially
      updatedAt := some now }

theorem OrderStatus.isResting_iff {status : OrderStatus} :
    status.isResting = true ↔ status = .confirmed ∨ status = .partially := by
  cases status <;> decide

/-- A buy and a sell of one market whose limits meet. -/
structure Order.Meets (buy sell : Order) : Prop where
  buy_side : buy.side = .buy
  sell_side : sell.side = .sell
  market_eq : buy.symbol = sell.symbol ∧ buy.tradingType = sell.tradingType
  price_le : sell.price.toRat ≤ buy.price.toRat

theorem tradable_iff {maker taker : Order} {quantity : Decimal} :
    Tradable maker taker quantity ↔
      (maker.status = .confirmed ∨ maker.status = .partially) ∧
      (taker.status = .confirmed ∨ taker.status = .partially) ∧
      0 < quantity.toRat ∧
      quantity.toRat ≤ maker.remaining.toRat ∧ quantity.toRat ≤ taker.remaining.toRat ∧
      (maker.Meets taker ∨ taker.Meets maker) := by
  constructor
  · intro h
    refine ⟨OrderStatus.isResting_iff.1 h.maker_resting, OrderStatus.isResting_iff.1 h.taker_resting,
      Decimal.isPos_iff.1 h.quantity_pos, Decimal.not_lt_iff.1 h.maker_room,
      Decimal.not_lt_iff.1 h.taker_room, ?_⟩
    have hmarket : maker.symbol = taker.symbol ∧ maker.tradingType = taker.tradingType :=
      Market.mk.inj h.sameMarket
    have hcrossing := Decimal.not_lt_iff.1 h.crossing
    obtain ⟨hm, ht, hpair⟩ | ⟨hm, ht, hpair⟩ := h.pair_cases <;> rw [hpair] at hcrossing
    · exact Or.inl ⟨hm, ht, hmarket, hcrossing⟩
    · exact Or.inr ⟨ht, hm, ⟨hmarket.1.symm, hmarket.2.symm⟩, hcrossing⟩
  · rintro ⟨hmaker, htaker, hpos, hmaker_room, htaker_room, hmeets⟩
    have hpair : maker.side ≠ taker.side ∧ maker.market = taker.market ∧
        ¬(Trade.buyAndSell maker taker).1.price < (Trade.buyAndSell maker taker).2.price := by
      unfold Trade.buyAndSell Order.market
      obtain h | h := hmeets
      · rw [h.buy_side, h.sell_side, h.market_eq.1, h.market_eq.2, Decimal.not_lt_iff]
        exact ⟨by decide, rfl, h.price_le⟩
      · rw [h.buy_side, h.sell_side, h.market_eq.1, h.market_eq.2, Decimal.not_lt_iff]
        exact ⟨by decide, rfl, h.price_le⟩
    obtain ⟨hopposite, hmarket, hcrossing⟩ := hpair
    exact ⟨Decimal.isPos_iff.2 hpos, OrderStatus.isResting_iff.2 hmaker,
      OrderStatus.isResting_iff.2 htaker, Decimal.not_lt_iff.2 hmaker_room,
      Decimal.not_lt_iff.2 htaker_room, hopposite, hmarket, hcrossing⟩

/-- An order takes the place of the one with its name. -/
theorem OrderTable.putEntry_eq_map {o : Order} {l : List Order} (hmem : o.id ∈ l.map Order.id)
    (hnodup : (l.map Order.id).Nodup) :
    putEntry o l = l.map fun p => if p.id = o.id then o else p := by
  induction l with
  | nil => cases hmem
  | cons p rest ih =>
    rw [List.map_cons, List.nodup_cons] at hnodup
    by_cases hp : p.id = o.id
    · have hrest : ∀ q ∈ rest, (if q.id = o.id then o else q) = q := fun q hq =>
        if_neg fun hid => hnodup.1 (by rw [hp, ← hid]; exact List.mem_map_of_mem hq)
      rw [putEntry, if_pos hp, List.map_cons, if_pos hp, List.map_congr_left hrest, List.map_id']
    · have hmem' : o.id ∈ rest.map Order.id :=
        (List.mem_cons.1 hmem).resolve_left fun h => hp h.symm
      rw [putEntry, if_neg hp, List.map_cons, if_neg hp, ih hmem' hnodup.2]

namespace Store

variable {s s' : Store} {stamp : Stamp} {makerId takerId : OrderId} {quantity : Decimal}
  {fees : FeeSchedule} {maker taker : Order} {m : Match}

/-- Two stored orders can be matched for `quantity`. -/
structure Matchable (s : Store) (makerId takerId : OrderId) (quantity : Decimal)
    (maker taker : Order) : Prop where
  ne : makerId ≠ takerId
  maker_found : s.orders.find? makerId = some maker
  taker_found : s.orders.find? takerId = some taker
  maker_open : maker.status = .confirmed ∨ maker.status = .partially
  taker_open : taker.status = .confirmed ∨ taker.status = .partially
  quantity_pos : 0 < quantity.toRat
  maker_room : quantity.toRat ≤ maker.remaining.toRat
  taker_room : quantity.toRat ≤ taker.remaining.toRat
  meets : maker.Meets taker ∨ taker.Meets maker

theorem matchable_iff : s.Matchable makerId takerId quantity maker taker ↔
    makerId ≠ takerId ∧ s.orders.find? makerId = some maker ∧
      s.orders.find? takerId = some taker ∧ Tradable maker taker quantity := by
  rw [tradable_iff]
  exact ⟨fun ⟨hne, hmaker, htaker, h1, h2, h3, h4, h5, h6⟩ =>
      ⟨hne, hmaker, htaker, h1, h2, h3, h4, h5, h6⟩,
    fun ⟨hne, hmaker, htaker, h1, h2, h3, h4, h5, h6⟩ =>
      ⟨hne, hmaker, htaker, h1, h2, h3, h4, h5, h6⟩⟩

/-- What a match of two orders does to a store. -/
structure Commits (s : Store) (stamp : Stamp) (maker taker : Order) (quantity : Decimal)
    (fees : FeeSchedule) (t : Trade) (s' : Store) : Prop where
  trade_created : Trade.create stamp maker taker quantity fees = .ok t
  /-- Both orders are filled in their places, and no other order is different. -/
  orders : ∃ maker' taker', maker.FilledTo quantity .maker stamp.time maker' ∧
    taker.FilledTo quantity .taker stamp.time taker' ∧
    s'.orders.entries = s.orders.entries.map fun o =>
      if o.id = maker.id then maker' else if o.id = taker.id then taker' else o
  trades_eq : s'.trades = s.trades ++ [t]
  settlements : ∃ r : SettlementRecord, s'.settlements = s.settlements ++ [r] ∧ r.trade = t ∧
    r.status = .pending ∧ r.attempts = 0
  nextSequence_eq : s'.nextSequence = s.nextSequence

theorem Matches.entries_eq (h : s.Matches stamp makerId takerId quantity fees maker taker m) :
    ((s.orders.put m.maker).put m.taker).entries = s.orders.entries.map fun o =>
      if o.id = makerId then m.maker else if o.id = takerId then m.taker else o := by
  have hmem : ∀ {id o}, s.orders.find? id = some o → id ∈ s.orders.entries.map Order.id := by
    intro id o ho
    obtain ⟨hstored, rfl⟩ := OrderTable.find?_eq_some_iff.1 ho
    exact List.mem_map_of_mem hstored
  have hids : (OrderTable.putEntry m.maker s.orders.entries).map Order.id =
      s.orders.entries.map Order.id := by
    rw [OrderTable.map_id_putEntry, if_pos (by rw [h.filled_maker_id]; exact hmem h.maker_found)]
  show OrderTable.putEntry m.taker (OrderTable.putEntry m.maker s.orders.entries) = _
  rw [OrderTable.putEntry_eq_map _ (hids ▸ s.orders.ids_nodup),
    OrderTable.putEntry_eq_map _ s.orders.ids_nodup, List.map_map]
  · refine List.map_congr_left fun o _ => ?_
    rw [Function.comp_apply, h.filled_maker_id, h.filled_taker_id]
    by_cases hmaker : o.id = makerId
    · rw [if_pos hmaker, if_pos hmaker, h.filled_maker_id, if_neg h.ne]
    · rw [if_neg hmaker, if_neg hmaker]
  · rw [h.filled_maker_id]
    exact hmem h.maker_found
  · rw [hids, h.filled_taker_id]
    exact hmem h.taker_found

theorem Matches.commits {r : SettlementRecord}
    (h : s.Matches stamp makerId takerId quantity fees maker taker m)
    (hr : SettlementRecord.create stamp.time m.trade (buyLimit m.maker m.taker) = .ok r) :
    s.Commits stamp maker taker quantity fees m.trade ((s.record m).pushSettlement r) := by
  have hfilled : ∀ {o o' : Order} {role : OrderRole},
      (o.fill quantity role stamp.time).run = .ok (.ok o') →
      o.FilledTo quantity role stamp.time o' := by
    intro o o' role hfill
    obtain ⟨-, -, -, h⟩ := Order.fill_eq_ok_iff.1 hfill
    exact h
  obtain ⟨htrade, hstatus⟩ := settlementRecord_create_eq_ok hr
  refine ⟨h.trade_created, ⟨m.maker, m.taker, hfilled h.maker_filled, hfilled h.taker_filled, ?_⟩,
    rfl, ⟨r, rfl, htrade, hstatus, attempts_of_create hr⟩, rfl⟩
  rw [h.maker_id, h.taker_id]
  exact h.entries_eq

/-- What is true of the conflicts of a pair of different orders, and of the other conflicts, is true of
the conflict that an attempt ends in. -/
theorem exists_conflict {P : MatchConflict → Prop} (hone : P (.invalidPair .oneOrder))
    (hmissing : ∀ id, P (.orderMissing id))
    (hpair : ∀ maker taker, makerId ≠ takerId → s.orders.find? makerId = some maker →
      s.orders.find? takerId = some taker →
      ∃ cause, (Match.execute stamp maker taker quantity fees).run = .ok (.error cause) ∧ P cause) :
    ∃ cause, s.commitMatch stamp makerId takerId quantity fees = (.ok (.conflict cause), s) ∧
      P cause := by
  unfold commitMatch conflict
  by_cases hne : makerId = takerId
  · rw [if_pos hne]
    exact ⟨_, rfl, hone⟩
  · rw [if_neg hne]
    cases hmaker : s.orders.find? makerId with
    | none => exact ⟨_, rfl, hmissing makerId⟩
    | some maker =>
      cases htaker : s.orders.find? takerId with
      | none => exact ⟨_, rfl, hmissing takerId⟩
      | some taker =>
        obtain ⟨cause, hcause, hP⟩ := hpair maker taker hne hmaker htaker
        dsimp only
        rw [hcause]
        exact ⟨cause, rfl, hP⟩

/-- A pair that cannot be matched is a conflict. -/
theorem commitMatch_conflict (stamp : Stamp) (fees : FeeSchedule)
    (h : ¬∃ maker taker, s.Matchable makerId takerId quantity maker taker) :
    ∃ cause, s.commitMatch stamp makerId takerId quantity fees = (.ok (.conflict cause), s) ∧
      cause.isOverflow = false :=
  exists_conflict rfl (fun _ => rfl) fun maker taker hne hmaker htaker =>
    Tradable.refused_of_not fun htradable =>
      h ⟨maker, taker, matchable_iff.2 ⟨hne, hmaker, htaker, htradable⟩⟩

/-- A pair that is not matched is a conflict, whatever the fees are. -/
theorem commitMatch_conflict_of_forall
    (h : ∀ maker taker m, ¬s.Matches stamp makerId takerId quantity fees maker taker m) :
    ∃ cause, s.commitMatch stamp makerId takerId quantity fees = (.ok (.conflict cause), s) := by
  have hconflict : ∃ cause, s.commitMatch stamp makerId takerId quantity fees =
      (.ok (.conflict cause), s) ∧ True := by
    refine exists_conflict trivial (fun _ => trivial) fun maker taker hne hmaker htaker => ?_
    obtain ⟨r, hr⟩ := Match.exists_outcome stamp maker taker quantity fees
    cases r with
    | error cause => exact ⟨cause, hr, trivial⟩
    | ok m => exact absurd ⟨hne, hmaker, htaker, hr⟩ (h maker taker m)
  obtain ⟨cause, hcommit, -⟩ := hconflict
  exact ⟨cause, hcommit⟩

/-! ### Stores that were used in any way -/

theorem Regular.act (hs : s.Regular) {a : StoreAct} (ha : a.InsertsCreated) : (s.act a).Regular := by
  cases a with
  | call stamp c => exact hs.perform stamp ha
  | restart => exact fun o ho => hs o (mem_orders_restart_iff.1 ho)

theorem regular_afterActs {acts : List StoreAct} (hcreated : ∀ a ∈ acts, a.InsertsCreated) :
    (empty.afterActs acts).Regular := by
  have hempty : empty.Regular := fun o ho => (by cases ho)
  exact afterActs_induction hempty fun s a ha hs => hs.act (hcreated a ha)

/-- However a store is used, and restarted in between, with created orders: to match two orders
never overflows. It succeeds just if they can be matched, and then fills both, appends their trade
and appends a fresh record for it. Otherwise it is a conflict, and leaves the store as it is. -/
theorem commitMatch_all_or_nothing {acts : List StoreAct} (hcreated : ∀ a ∈ acts, a.InsertsCreated)
    (hfees : fees.Shares) (stamp : Stamp) (makerId takerId : OrderId) (quantity : Decimal) :
    let s := empty.afterActs acts
    let outcome := (s.commitMatch stamp makerId takerId quantity fees).1
    let s' := (s.commitMatch stamp makerId takerId quantity fees).2
    (∀ e, outcome ≠ .error e) ∧
      ((∃ t, outcome = .ok (.executed t)) ↔
        ∃ maker taker, s.Matchable makerId takerId quantity maker taker) ∧
      (∀ cause, outcome = .ok (.conflict cause) → s' = s ∧ cause.isOverflow = false) ∧
      ∀ t, outcome = .ok (.executed t) →
        ∃ maker taker, s.Matchable makerId takerId quantity maker taker ∧
          s.Commits stamp maker taker quantity fees t s' := by
  intro s outcome s'
  by_cases h : ∃ maker taker, s.Matchable makerId takerId quantity maker taker
  · obtain ⟨maker, taker, hmatchable⟩ := h
    obtain ⟨hne, hmaker, htaker, htradable⟩ := matchable_iff.1 hmatchable
    obtain ⟨m, r, hm, hr, hcommit⟩ := commitMatch_executed (regular_afterActs hcreated) hfees stamp
      hne hmaker htaker htradable
    have houtcome : outcome = .ok (.executed m.trade) := congrArg Prod.fst hcommit
    have hs' : s' = (s.record m).pushSettlement r := congrArg Prod.snd hcommit
    rw [houtcome, hs']
    refine ⟨fun e he => (by cases he), iff_of_true ⟨_, rfl⟩ ⟨maker, taker, hmatchable⟩,
      fun cause hcause => (by cases hcause), fun t ht => ?_⟩
    obtain rfl : m.trade = t := MatchOutcome.executed.inj (Except.ok.inj ht)
    exact ⟨maker, taker, hmatchable, hm.commits hr⟩
  · obtain ⟨cause, hcommit, hproper⟩ := commitMatch_conflict stamp fees h
    have houtcome : outcome = .ok (.conflict cause) := congrArg Prod.fst hcommit
    have hs' : s' = s := congrArg Prod.snd hcommit
    rw [houtcome, hs']
    refine ⟨fun e he => (by cases he),
      iff_of_false (fun ⟨t, ht⟩ => by cases Except.ok.inj ht) h, fun c hc => ⟨rfl, ?_⟩,
      fun t ht => (by cases Except.ok.inj ht)⟩
    obtain rfl : cause = c := MatchOutcome.conflict.inj (Except.ok.inj hc)
    exact hproper

/-- A buy at the largest price there is and a sell at one, of one piece each and confirmed. -/
def widestSpread : List StoreAct :=
  let calls : List StoreCall :=
    [.insertOrder (.gold 1 .buy .one largest 1), .insertOrder (.gold 2 .sell .one .one 2),
      .transitionOrder ⟨.ofNat 1⟩ .confirm, .transitionOrder ⟨.ofNat 2⟩ .confirm]
  calls.map fun c => .call ⟨.ofNat 3, .epoch⟩ c

/-- All but one of the buyer's reserve is released, and the fees take all that is traded. -/
theorem commitMatch_all_or_nothing_widestSpread :
    let fees : FeeSchedule := ⟨.one, .one⟩
    let stamp : Stamp := ⟨.ofNat 4, .epoch⟩
    let makerId : OrderId := ⟨.ofNat 2⟩
    let takerId : OrderId := ⟨.ofNat 1⟩
    ((∀ a ∈ widestSpread, a.InsertsCreated) ∧ fees.Shares) ∧
    let s := empty.afterActs widestSpread
    let outcome := (s.commitMatch stamp makerId takerId .one fees).1
    let s' := (s.commitMatch stamp makerId takerId .one fees).2
    s'.settlements.map (fun r => (r.buyerRelease.coefficient, r.trade.buyerFee, r.trade.sellerFee)) =
      [(2 ^ 96 - 2, .one, .one)] ∧
    (∀ e, outcome ≠ .error e) ∧
      ((∃ t, outcome = .ok (.executed t)) ↔
        ∃ maker taker, s.Matchable makerId takerId .one maker taker) ∧
      (∀ cause, outcome = .ok (.conflict cause) → s' = s ∧ cause.isOverflow = false) ∧
      ∀ t, outcome = .ok (.executed t) →
        ∃ maker taker, s.Matchable makerId takerId .one maker taker ∧
          s.Commits stamp maker taker .one fees t s' := by
  intro fees stamp makerId takerId
  have hcreated : ∀ a ∈ widestSpread, a.InsertsCreated := by
    simp only [widestSpread, List.map_cons, List.map_nil, List.forall_mem_cons]
    exact ⟨Order.create_gold 1 .buy 1 (by decide) (by decide) ⟨_, rfl⟩,
      Order.create_gold 2 .sell 2 (by decide) (by decide) ⟨_, rfl⟩, trivial, trivial, by simp⟩
  have hrate : ∀ role, (fees.rateFor role).toRat = 1 := by
    intro role
    have hone : Decimal.one.toRat = 1 := by simp [Decimal.toRat, Decimal.mantissa, Decimal.one]
    cases role <;> exact hone
  have hfees : fees.Shares :=
    ⟨fun role => by rw [hrate]; exact zero_le_one, fun role => (hrate role).le⟩
  exact ⟨⟨hcreated, hfees⟩, by decide +kernel,
    commitMatch_all_or_nothing hcreated hfees stamp makerId takerId .one⟩

end Store

end Bourse
