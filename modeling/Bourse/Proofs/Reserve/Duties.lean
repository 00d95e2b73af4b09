import Bourse.Proofs.Reserve.Invariant
import Bourse.Proofs.Settlement.Records
import Bourse.Proofs.SideBySide

/-!
# Duties

A trade is settled in two calls: the ledger moves the funds, and then the store records it. Between
the two, the record of the trade lags behind the ledger, and others may make their calls. So a ghost
goes beside the exchange: the duty of each piece of work says which records the work has claimed,
and which trade it has settled and not yet recorded.

The calls of an engine and its settlers are proper at their duties. Whoever makes such a call, what
is locked is what is owed, only the trades of the duties are unrecorded, and no settlement is
refused.
-/

namespace Bourse

/-- Calls that settle a trade are answered with success. -/
def settles : Call → Exchange → Prop
  | .ledger (.settle trade release), x => (x.ledger.settle trade release).1 = .ok (.ok ())
  | _, _ => True

/-- Calls that need a stamp are made as long as there are stamps left. -/
def stampLeft (limit : ℕ) : Call → Exchange → Prop
  | .ledger _, _ => True
  | _, x => x.drawn < limit

/-- What a piece of work has claimed, and which trade it has settled and not yet recorded. -/
structure Duty where
  records : List (Trade × Decimal)
  unrecorded : Option TradeId

namespace Duty

/-- The duty of work that has not begun. -/
def fresh : Duty := ⟨[], none⟩

/-- All that is settled is recorded. -/
def IsFree (k : Duty) : Prop := k.unrecorded = none

/-- The claimed records are there. So is the one of the trade that is settled. -/
structure HoldsOf (k : Duty) (x : Exchange) : Prop where
  claimed : k.records ⊆ x.store.settlements.map SettlementRecord.terms
  settled : ∀ id, k.unrecorded = some id →
    id ∈ x.ledger.settled ∧ ∃ r ∈ x.store.settlements, r.trade.id = id

theorem fresh_holdsOf (x : Exchange) : fresh.HoldsOf x :=
  ⟨List.nil_subset _, fun _ h => (by cases h)⟩

/-- Records stay the records of their trades, and what is settled stays settled. -/
theorem HoldsOf.mono {k : Duty} {x x' : Exchange} (h : k.HoldsOf x)
    (hterms : x.store.settlements.map SettlementRecord.terms ⊆
      x'.store.settlements.map SettlementRecord.terms)
    (hsettled : x.ledger.settled ⊆ x'.ledger.settled) : k.HoldsOf x' := by
  refine ⟨List.Subset.trans h.claimed hterms, fun id hid => ?_⟩
  obtain ⟨hmem, r, hr, rfl⟩ := h.settled id hid
  obtain ⟨r', hr', hsame⟩ := List.mem_map.1 (hterms (List.mem_map_of_mem hr))
  exact ⟨hsettled hmem, r', hr', congrArg (fun terms => terms.1.id) hsame⟩

end Duty

namespace Setting

variable {w : Setting} {x x' : Exchange} {difference : Account →₀ ℚ} {now : Instant}
  {records : List SettlementRecord} {r q : SettlementRecord} {ε α : Type}

/-! ### Calls of the exchange -/

/-- What a task of the exchange leads to, if all settlements on the way succeed. -/
abbrev wp (w : Setting) (t : Task ε α) (Q : Outcome ε α → Exchange → Prop) (x : Exchange) : Prop :=
  t.wp (Work.Handler.answers (Exchange.handler w.stamps)) (stampLeft w.limit) settles Q x

/-- A task keeps the balance, and `R` holds of its result. -/
abbrev Keeps (w : Setting) (t : Task ε α) (R : α → Prop) : Prop :=
  t.Keeps (Work.Handler.answers (Exchange.handler w.stamps)) (stampLeft w.limit) settles w.Balanced
    R

theorem wp_store {c : StoreCall} {Q : Outcome StoreError c.Answer → Exchange → Prop} :
    w.wp (Task.store c) Q x ↔
      (x.drawn < w.limit → Q (x.store.perform (w.stamps x.drawn) c).1
        (after x (x.store.perform (w.stamps x.drawn) c).2)) := by
  refine Task.wp_store.trans (imp_congr_right fun _ =>
    ⟨fun h => h.2 _ _ rfl, fun h => ⟨trivial, ?_⟩⟩)
  rintro reply x' hx'
  obtain ⟨rfl, rfl⟩ := Prod.mk.inj hx'
  exact h

theorem wp_ledger {c : LedgerCall} {Q : Outcome LedgerError c.Answer → Exchange → Prop}
    {result : Outcome LedgerError c.Answer} {l : Ledger} (h : x.ledger.perform c = (result, l))
    (hsettles : settles (.ledger c) x) :
    w.wp (Task.ledger c) Q x ↔ Q result { x with ledger := l } := by
  have hcall : Exchange.handler w.stamps (.ledger c) x = (result, { x with ledger := l }) := by
    show ((x.ledger.perform c).1, { x with ledger := (x.ledger.perform c).2 }) = _
    rw [h]
  refine Task.wp_ledger.trans ⟨fun hQ => (hQ trivial).2 _ _ hcall, fun hQ _ => ⟨hsettles, ?_⟩⟩
  rintro reply x' hx'
  obtain ⟨rfl, rfl⟩ := Prod.mk.inj (hcall.symm.trans hx')
  exact hQ

theorem BalancedUpTo.unchanged (h : w.BalancedUpTo difference x) :
    w.BalancedUpTo difference (after x x.store) :=
  ⟨h.1.unchanged, h.2⟩

/-! ### Records that are claimed and settled -/

section Claimed

variable (hc : List.Forall₂ (SettlementRecord.Claimed now) x.store.settlements records)

include hc

theorem Backed.claimed (h : w.Backed difference x) :
    w.Backed difference (after x (x.store.withSettlements records)) := by
  refine h.setSettlements (SettlementRecord.map_terms_eq hc) fun r hr => ?_
  obtain ⟨q, hq, rfl | hclaim⟩ := SettlementRecord.exists_of_claimed hc hr
  · exact ⟨h.sound.not_failed _ hq, h.settled_of_status _ hq⟩
  · rw [(SettlementRecord.claim?_eq_some_iff.1 hclaim).2]
    exact ⟨by simp, fun hs => (by cases hs)⟩

/-- A settled record is not in the queue, so no claim takes it back. -/
theorem Recorded.claimed {except : TradeId → Prop} (h : Recorded except x) :
    Recorded except (after x (x.store.withSettlements records)) := by
  intro r hr hmem
  obtain ⟨q, hq, rfl | hclaim⟩ := SettlementRecord.exists_of_claimed hc hr
  · exact h _ hq hmem
  · obtain ⟨hpending, hr'⟩ := SettlementRecord.claim?_eq_some_iff.1 hclaim
    have hid : r.trade.id = q.trade.id := by rw [hr']
    rcases h q hq (hid ▸ hmem) with hs | hexcept
    · rw [hpending] at hs
      cases hs
    · exact Or.inr (hid ▸ hexcept)

end Claimed

section Attempted

variable {id : TradeId} {place : ℕ} (maxAttempts : UInt32) (now : Instant) (h : w.Backed 0 x)
  (hmem : id ∈ x.ledger.settled) (hfound : x.store.requireSettlement id = .ok (place, q))

include h hmem hfound

/-- A success is recorded of a trade that is settled. -/
theorem Backed.attempted :
    w.Backed 0 (after x (x.store.setSettlement place (q.recordAttempt none maxAttempts now))) := by
  obtain ⟨hplace, hid⟩ := Store.requireSettlement_eq_ok hfound
  have hq : q ∈ x.store.settlements := List.mem_of_getElem? hplace
  have hterms := q.terms_recordAttempt none maxAttempts now
  refine h.setSettlements (SettlementRecord.map_terms_set hplace hterms) fun r hr => ?_
  rcases List.mem_or_eq_of_mem_set hr with hr | rfl
  · exact ⟨h.sound.not_failed r hr, h.settled_of_status r hr⟩
  · rw [SettlementRecord.recordAttempt_success (h.sound.not_failed q hq),
      q.trade_recordAttempt none maxAttempts now, hid]
    exact ⟨by simp, fun _ => hmem⟩

/-- Then this trade is no longer unrecorded. -/
theorem Recorded.attempted {except : TradeId → Prop} (hopen : Recorded except x) :
    Recorded (fun other => except other ∧ other ≠ id)
      (after x (x.store.setSettlement place (q.recordAttempt none maxAttempts now))) := by
  obtain ⟨hplace, hid⟩ := Store.requireSettlement_eq_ok hfound
  have hq : q ∈ x.store.settlements := List.mem_of_getElem? hplace
  have hlt : place < x.store.settlements.length := (List.getElem?_eq_some_iff.1 hplace).1
  let q' := q.recordAttempt none maxAttempts now
  have hstatus : q'.status = .settled :=
    SettlementRecord.recordAttempt_success (h.sound.not_failed q hq) maxAttempts now
  have hq'_id : q'.trade.id = id := by
    rw [q.trade_recordAttempt none maxAttempts now, hid]
  intro r hr hsettled
  by_cases hrid : r.trade.id = id
  · -- no other record has this trade
    have hnodup := (h.attempted maxAttempts now hmem hfound).sound.ids_nodup
    rw [List.inj_on_of_nodup_map hnodup hr (List.mem_set hlt q') (hrid.trans hq'_id.symm)]
    exact Or.inl hstatus
  · rcases List.mem_or_eq_of_mem_set hr with hr | rfl
    · exact (hopen r hr hsettled).imp_right fun hexcept => ⟨hexcept, hrid⟩
    · exact Or.inl hstatus

end Attempted

/-! ### Proper calls -/

/-- The calls that engines and settlers make, in view of a duty. -/
inductive Proper (w : Setting) : Call → Duty → Prop where
  | getOrder (id : OrderId) (k : Duty) : w.Proper (.store (.getOrder id)) k
  | restingOrders (market : Market) (side : Side) (k : Duty) :
    w.Proper (.store (.restingOrders market side)) k
  | commitMatch {makerId takerId : OrderId} {quantity : Decimal} {fees : FeeSchedule} {k : Duty}
    (fees_within : fees.Within w.precision)
    (measured : HasDigits w.precision.amount quantity.toRat) :
    w.Proper (.store (.commitMatch makerId takerId quantity fees)) k
  | claimSettlement (id : TradeId) (k : Duty) : w.Proper (.store (.claimSettlement id)) k
  | claimPending (limit : UInt64) (k : Duty) : w.Proper (.store (.claimPending limit)) k
  /-- Claimed records are taken to the ledger one at a time. -/
  | settle {trade : Trade} {release : Decimal} {k : Duty}
    (claimed : (trade, release) ∈ k.records) (free : k.IsFree) :
    w.Proper (.ledger (.settle trade release)) k
  /-- Only what is settled is recorded, and as a success. -/
  | recordAttempt {id : TradeId} {limit : UInt32} {k : Duty} (settled : k.unrecorded = some id) :
    w.Proper (.store (.recordAttempt id none limit)) k

/-- What a piece of work learns from a reply, and how its duty goes on. -/
def learns (w : Setting) : Work.Answers Duty
  | .store (.getOrder _), k, reply, k' =>
    k' = k ∧ ∀ o : Order, reply = .ok (.ok (some o)) → o.Funded w.precision
  | .store (.restingOrders _ _), k, reply, k' =>
    k' = k ∧ ∀ orders : List Order, reply = .ok (.ok orders) → ∀ o ∈ orders, o.Funded w.precision
  | .store (.claimSettlement _), k, reply, k' =>
    k'.unrecorded = k.unrecorded ∧ ∀ r : SettlementRecord, reply = .ok (.ok (some r)) →
      r.terms ∈ k'.records
  | .store (.claimPending _), k, reply, k' =>
    k'.unrecorded = k.unrecorded ∧ ∀ l : List SettlementRecord, reply = .ok (.ok l) → ∀ r ∈ l,
      r.terms ∈ k'.records
  | .store (.recordAttempt _ _ _), k, reply, k' =>
    (∃ r, reply = .ok (.ok r)) ∧ k' = { k with unrecorded := none }
  | .ledger (.settle trade _), k, reply, k' =>
    reply = .ok (.ok ()) ∧ k' = { k with unrecorded := some trade.id }
  | _, k, _, k' => k' = k

/-! ### Work that is under way -/

/-- What is locked is what is owed, and the trades that are settled and not recorded are those of the
duties. -/
structure UnderWay (w : Setting) (duties : ℕ → Duty) (x : Exchange) : Prop where
  backed : w.Backed 0 x
  recorded : Recorded (fun id => ∃ place, (duties place).unrecorded = some id) x
  holds : ∀ place, (duties place).HoldsOf x

variable {duties : ℕ → Duty} {place : ℕ} {k : Duty}

theorem Recorded.mono {p q : TradeId → Prop} (h : Recorded p x) (hpq : ∀ id, p id → q id) :
    Recorded q x :=
  fun r hr hmem => (h r hr hmem).imp_right (hpq r.trade.id)

theorem UnderWay.of_balanced (h : w.Balanced x) : w.UnderWay (fun _ => .fresh) x :=
  ⟨h.1, h.2.mono fun _ hfalse => hfalse.elim, fun _ => Duty.fresh_holdsOf x⟩

/-- Where nobody has anything left to record, everything is balanced. -/
theorem UnderWay.balanced (h : w.UnderWay duties x) (hfree : ∀ place, (duties place).IsFree) :
    w.Balanced x := by
  refine ⟨h.backed, h.recorded.mono ?_⟩
  rintro id ⟨place, hplace⟩
  rw [hfree place] at hplace
  cases hplace

section Move

variable (h : w.UnderWay duties x) (hbacked : w.Backed 0 x')
  (hterms : x.store.settlements.map SettlementRecord.terms ⊆
    x'.store.settlements.map SettlementRecord.terms)
  (hsettled : x.ledger.settled ⊆ x'.ledger.settled)

include h hbacked hterms hsettled

/-- One duty goes on, and the others stay as they are. -/
theorem UnderWay.move (hk : k.HoldsOf x')
    (hrecorded : Recorded (fun id => k.unrecorded = some id ∨
      ∃ other ≠ place, (duties other).unrecorded = some id) x') :
    w.UnderWay (Function.update duties place k) x' := by
  have hholds : ∀ other, (Function.update duties place k other).HoldsOf x' :=
    (Function.forall_update_iff duties fun _ k => k.HoldsOf x').2
      ⟨hk, fun other _ => (h.holds other).mono hterms hsettled⟩
  refine ⟨hbacked, hrecorded.mono ?_, hholds⟩
  rintro id (hid | ⟨other, hne, hid⟩)
  · exact ⟨place, by rwa [Function.update_self]⟩
  · exact ⟨other, by rwa [Function.update_of_ne hne]⟩

/-- A duty goes on without a trade that is settled or recorded by it. -/
theorem UnderWay.keep (hk : k.HoldsOf x') (hsame : k.unrecorded = (duties place).unrecorded)
    (hrecorded : Recorded (fun id => ∃ place, (duties place).unrecorded = some id) x') :
    w.UnderWay (Function.update duties place k) x' := by
  refine h.move hbacked hterms hsettled hk (hrecorded.mono ?_)
  rintro id ⟨other, hid⟩
  by_cases hother : other = place
  · exact Or.inl (hsame.trans (hother ▸ hid))
  · exact Or.inr ⟨other, hother, hid⟩

end Move

/-! ### One call -/

namespace UnderWay

variable (h : w.UnderWay duties x)

include h

/-- A call that changes nothing, and teaches nothing that a duty is about. -/
theorem unchanged : w.UnderWay (Function.update duties place (duties place)) (after x x.store) := by
  rw [Function.update_eq_self]
  exact ⟨h.backed.unchanged, h.recorded, fun place =>
    (h.holds place).mono (List.Subset.refl _) (List.Subset.refl _)⟩

/-- Records are claimed. -/
theorem claimed (hc : List.Forall₂ (SettlementRecord.Claimed now) x.store.settlements records)
    {l : List SettlementRecord} (hl : ∀ r ∈ l, r ∈ records) :
    w.UnderWay (Function.update duties place
        { duties place with records := l.map SettlementRecord.terms ++ (duties place).records })
      (after x (x.store.withSettlements records)) := by
  have hterms : x.store.settlements.map SettlementRecord.terms ⊆
      records.map SettlementRecord.terms := by
    rw [SettlementRecord.map_terms_eq hc]
    exact List.Subset.refl _
  have hk : (duties place).HoldsOf (after x (x.store.withSettlements records)) :=
    (h.holds place).mono hterms (List.Subset.refl _)
  refine h.keep (h.backed.claimed hc) hterms (List.Subset.refl _) ⟨?_, hk.settled⟩ rfl
    (h.recorded.claimed hc)
  refine List.append_subset.2 ⟨fun terms hmem => ?_, hk.claimed⟩
  obtain ⟨r, hr, rfl⟩ := List.mem_map.1 hmem
  exact List.mem_map_of_mem (hl r hr)

/-- A pair is matched, and its trade has a record that waits. -/
theorem commitMatch (hleft : x.drawn < w.limit) {makerId takerId : OrderId} {quantity : Decimal}
    {fees : FeeSchedule} (hfees : fees.Within w.precision)
    (hq : HasDigits w.precision.amount quantity.toRat) :
    w.UnderWay (Function.update duties place (duties place))
      (after x (x.store.commitMatch (w.stamps x.drawn) makerId takerId quantity fees).2) := by
  obtain ⟨cause, heq⟩ | ⟨overflow, heq⟩ | ⟨maker, taker, m, hm, hrecord⟩ :=
    x.store.commitMatch_cases (w.stamps x.drawn) makerId takerId quantity fees
  · rw [heq]
    exact h.unchanged
  · rw [heq]
    exact h.unchanged
  · obtain ⟨r, hr, -, -, hnew, hbacked⟩ := h.backed.matched hleft hfees hq hm
    obtain ⟨overflow, herror, -⟩ | ⟨r', hr', heq⟩ := hrecord
    · rw [hr] at herror
      cases herror
    · rw [hr] at hr'
      obtain rfl := Except.ok.inj hr'
      rw [heq]
      have hterms : x.store.settlements.map SettlementRecord.terms ⊆
          (x.store.settlements ++ [r]).map SettlementRecord.terms :=
        List.map_subset _ (List.subset_append_left _ _)
      refine h.keep hbacked hterms (List.Subset.refl _)
        ((h.holds place).mono hterms (List.Subset.refl _)) rfl fun q hq hmem => ?_
      rcases List.mem_append.1 hq with hq | hq
      · exact h.recorded q hq hmem
      · rw [List.mem_singleton.1 hq] at hmem
        exact absurd hmem hnew

theorem claimSettlement (id : TradeId) :
    ∃ k, w.learns (.store (.claimSettlement id)) (duties place)
        (x.store.perform (w.stamps x.drawn) (.claimSettlement id)).1 k ∧
      w.UnderWay (Function.update duties place k)
        (after x (x.store.perform (w.stamps x.drawn) (.claimSettlement id)).2) := by
  simp only [Store.perform]
  cases hclaim : x.store.claimSettlement id (w.stamps x.drawn).time with
  | error e => exact ⟨_, ⟨rfl, fun r hr => (by cases hr)⟩, h.unchanged⟩
  | ok found =>
    obtain ⟨found, s'⟩ := found
    obtain ⟨place', q, hfound, ⟨-, rfl, rfl⟩ | ⟨r, hr, rfl, rfl⟩⟩ :=
      Store.claimSettlement_eq_ok hclaim
    · exact ⟨_, ⟨rfl, fun r hr => (by cases hr)⟩, h.unchanged⟩
    · have hplace := (Store.requireSettlement_eq_ok hfound).1
      have hmem : r ∈ x.store.settlements.set place' r :=
        List.mem_set (List.getElem?_eq_some_iff.1 hplace).1 r
      have hr' : ∀ r' ∈ [r], r' ∈ x.store.settlements.set place' r :=
        fun r' hr' => List.mem_singleton.1 hr' ▸ hmem
      refine ⟨_, ⟨?_, ?_⟩, h.claimed (SettlementRecord.claimed_set hplace hr) hr'⟩
      · rfl
      · rintro r' hr'
        cases hr'
        exact List.mem_cons_self

theorem claimPending (limit : UInt64) :
    ∃ k, w.learns (.store (.claimPending limit)) (duties place)
        (x.store.perform (w.stamps x.drawn) (.claimPending limit)).1 k ∧
      w.UnderWay (Function.update duties place k)
        (after x (x.store.perform (w.stamps x.drawn) (.claimPending limit)).2) := by
  obtain ⟨hall, hmem⟩ := SettlementRecord.claimed_claimFirst (w.stamps x.drawn).time
    limit.toNat x.store.settlements
  simp only [Store.perform, Store.claimPending_eq]
  refine ⟨_, ⟨?_, ?_⟩, h.claimed hall hmem⟩
  · rfl
  · rintro l hl r hr
    cases hl
    exact List.mem_append_left _ (List.mem_map_of_mem hr)

/-- A claimed record is settled, whatever others do. -/
theorem settle {trade : Trade} {release : Decimal}
    (hclaimed : (trade, release) ∈ (duties place).records) (hfree : (duties place).IsFree) :
    ∃ l, x.ledger.settle trade release = (.ok (.ok ()), l) ∧
      w.UnderWay (Function.update duties place { duties place with unrecorded := some trade.id })
        { x with ledger := l } := by
  obtain ⟨q, hq, hterms⟩ := List.mem_map.1 ((h.holds place).claimed hclaimed)
  obtain ⟨rfl, rfl⟩ := Prod.mk.inj hterms
  obtain ⟨l, hsettle, hiff, hl⟩ := h.backed.settled hq
  have hsettled : x.ledger.settled ⊆ l.settled := fun id hid => (hiff id).2 (Or.inr hid)
  have hk : (duties place).HoldsOf { x with ledger := l } :=
    (h.holds place).mono (List.Subset.refl _) hsettled
  refine ⟨l, hsettle, h.move hl (List.Subset.refl _) hsettled ⟨hk.claimed, ?_⟩ ?_⟩
  · rintro id hid
    obtain rfl := Option.some.inj hid
    exact ⟨(hiff _).2 (Or.inl rfl), q, hq, rfl⟩
  · intro r hr hmem
    rcases (hiff _).1 hmem with hid | hmem
    · exact Or.inr (Or.inl (congrArg some hid.symm))
    · refine (h.recorded r hr hmem).imp_right ?_
      rintro ⟨other, hid⟩
      refine Or.inr ⟨other, ?_, hid⟩
      rintro rfl
      rw [hfree] at hid
      cases hid

/-- A success is recorded, whatever others did in the meantime. -/
theorem recordAttempt {id : TradeId} (hid : (duties place).unrecorded = some id) (limit : UInt32) :
    ∃ r s', x.store.perform (w.stamps x.drawn) (.recordAttempt id none limit) = (.ok (.ok r), s') ∧
      w.UnderWay (Function.update duties place { duties place with unrecorded := none })
        (after x s') := by
  obtain ⟨hmem, q₀, hq₀, hq₀_id⟩ := (h.holds place).settled id hid
  cases hfound : x.store.requireSettlement id with
  | error e => exact absurd hq₀_id ((Store.requireSettlement_eq_error hfound).2 q₀ hq₀)
  | ok found =>
    obtain ⟨place', q⟩ := found
    refine ⟨_, _, Store.perform_recordAttempt hfound none limit, ?_⟩
    let now := (w.stamps x.drawn).time
    let s' := x.store.setSettlement place' (q.recordAttempt none limit now)
    have hterms : x.store.settlements.map SettlementRecord.terms ⊆
        s'.settlements.map SettlementRecord.terms := by
      rw [show s'.settlements.map SettlementRecord.terms = _ from
        SettlementRecord.map_terms_set (Store.requireSettlement_eq_ok hfound).1
          (q.terms_recordAttempt none limit now)]
      exact List.Subset.refl _
    have hk : (duties place).HoldsOf (after x s') :=
      (h.holds place).mono hterms (List.Subset.refl _)
    refine h.move (h.backed.attempted limit now hmem hfound) hterms (List.Subset.refl _)
      ⟨hk.claimed, fun _ hnone => (by cases hnone)⟩
      ((h.recorded.attempted limit now h.backed hmem hfound).mono ?_)
    rintro other ⟨⟨place₁, hplace₁⟩, hne⟩
    refine Or.inr ⟨place₁, ?_, hplace₁⟩
    rintro rfl
    exact hne (Option.some.inj (hplace₁.symm.trans hid))

end UnderWay

/-- Every proper call keeps the balance but for the duties, and every settlement is made. -/
theorem moves (w : Setting) :
    Work.Moves (Work.Handler.answers (Exchange.handler w.stamps)) (stampLeft w.limit) settles
      w.learns w.Proper w.UnderWay := by
  intro duties place c x hx hproper hleft
  suffices h : settles c x ∧ ∃ k,
      w.learns c (duties place) (Exchange.handler w.stamps c x).1 k ∧
        w.UnderWay (Function.update duties place k) (Exchange.handler w.stamps c x).2 by
    refine ⟨h.1, ?_⟩
    rintro reply x' hx'
    rw [show Exchange.handler w.stamps c x = _ from hx'] at h
    exact h.2
  cases hproper with
  | getOrder id =>
    refine ⟨trivial, _, ⟨rfl, fun o ho => ?_⟩, hx.unchanged⟩
    exact hx.backed.sound.funded o (OrderTable.mem_of_find? (Except.ok.inj (Except.ok.inj ho)))
  | restingOrders market side =>
    refine ⟨trivial, _, ⟨rfl, fun orders horders o ho => ?_⟩, hx.unchanged⟩
    rw [← Except.ok.inj (Except.ok.inj horders)] at ho
    exact hx.backed.sound.funded o (List.mem_filter.1 ho).1
  | commitMatch fees_within measured =>
    exact ⟨trivial, _, rfl, hx.commitMatch hleft fees_within measured⟩
  | claimSettlement id => exact ⟨trivial, hx.claimSettlement id⟩
  | claimPending limit => exact ⟨trivial, hx.claimPending limit⟩
  | @settle trade release k claimed free =>
    obtain ⟨l, hsettle, hl⟩ := hx.settle claimed free
    have hcall : Exchange.handler w.stamps (.ledger (.settle trade release)) x =
        (.ok (.ok ()), { x with ledger := l }) := by
      show ((x.ledger.settle trade release).1, { x with ledger := (x.ledger.settle trade release).2 })
        = _
      rw [hsettle]
      rfl
    rw [hcall]
    exact ⟨congrArg Prod.fst hsettle, _, ⟨rfl, rfl⟩, hl⟩
  | @recordAttempt id limit k settled =>
    obtain ⟨r, s', hrecord, hs'⟩ := hx.recordAttempt settled limit
    have hcall : Exchange.handler w.stamps (.store (.recordAttempt id none limit)) x =
        (.ok (.ok r), after x s') := by
      have hresult := congrArg Prod.fst hrecord
      have hstore := congrArg Prod.snd hrecord
      exact Prod.ext hresult (congrArg (after x) hstore)
    rw [hcall]
    exact ⟨trivial, _, ⟨⟨r, rfl⟩, rfl⟩, hs'⟩

/-! ### Tasks -/

/-- A task of an engine or a settler: it makes only proper calls, and has recorded all that it has
settled in the end. -/
abbrev Runs (w : Setting) (t : Task ε α) (R : α → Prop) : Prop :=
  t.Keeps w.learns (fun _ _ => True) w.Proper Duty.IsFree R

/-- Such a task keeps the balance. -/
theorem Runs.keeps {t : Task ε α} {R : α → Prop} (ht : w.Runs t R) : w.Keeps t R := by
  intro x hx
  refine Work.wp_mono (Work.wp_alone w.moves (.of_balanced hx) 0 (ht .fresh rfl)) ?_
  rintro r x' ⟨k, ⟨hfree, hr⟩, hx'⟩
  have hall : ∀ place, (Function.update (fun _ => Duty.fresh) 0 k place).IsFree :=
    (Function.forall_update_iff _ fun _ => Duty.IsFree).2 ⟨hfree, fun _ _ => rfl⟩
  exact ⟨hx'.balanced hall, hr⟩

end Setting

end Bourse
