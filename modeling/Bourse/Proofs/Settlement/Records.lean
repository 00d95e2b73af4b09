import Bourse.Proofs.Store.Calls
import Mathlib.Data.List.Forall2

/-!
# Settlement records

Calls to the store change how far records have come, but never which trade a record is of nor what
it releases to the buyer. A new record is one of a new trade. A record is settled only by an attempt
that is recorded as a success.
-/

namespace Bourse

/-- A record is as it was, or was taken out of the queue. -/
def SettlementRecord.Claimed (now : Instant) (r r' : SettlementRecord) : Prop :=
  r' = r ∨ r.claim? now = some r'

/-- The trade of a record and what its settlement releases. -/
def SettlementRecord.terms (r : SettlementRecord) : Trade × Decimal := (r.trade, r.buyerRelease)

/-- Two states of the record of one trade: all that is fixed when it is made is the same. -/
structure SettlementRecord.SameOrigin (r r' : SettlementRecord) : Prop where
  trade_eq : r'.trade = r.trade
  buyerRelease_eq : r'.buyerRelease = r.buyerRelease
  createdAt_eq : r'.createdAt = r.createdAt

namespace SettlementRecord

variable {now : Instant} {r r' : SettlementRecord} {records records' : List SettlementRecord}

theorem claim?_eq_some_iff : r.claim? now = some r' ↔
    r.status = .pending ∧ r' = { r with status := .inFlight, updatedAt := some now } := by
  unfold claim?
  split <;> rename_i h <;> simp [h, eq_comm]

theorem SameOrigin.refl (r : SettlementRecord) : r.SameOrigin r := ⟨rfl, rfl, rfl⟩

theorem SameOrigin.terms_eq (h : r.SameOrigin r') : r'.terms = r.terms :=
  Prod.ext h.trade_eq h.buyerRelease_eq

theorem sameOrigin_of_claim (h : r.claim? now = some r') : r.SameOrigin r' := by
  rw [(claim?_eq_some_iff.1 h).2]
  exact ⟨rfl, rfl, rfl⟩

theorem sameOrigin_recordAttempt (r : SettlementRecord) (failure : Option String) (limit : UInt32)
    (now : Instant) : r.SameOrigin (r.recordAttempt failure limit now) := by
  unfold recordAttempt
  split <;> exact ⟨rfl, rfl, rfl⟩

theorem sameOrigin_releaseClaim (r : SettlementRecord) : r.SameOrigin r.releaseClaim := by
  unfold releaseClaim
  split <;> exact ⟨rfl, rfl, rfl⟩

theorem Claimed.terms_eq (h : Claimed now r r') : r'.terms = r.terms := by
  rcases h with rfl | h
  · rfl
  · exact (sameOrigin_of_claim h).terms_eq

theorem map_terms_of_forall₂
    (h : List.Forall₂ (fun r r' : SettlementRecord => r'.terms = r.terms) records records') :
    records'.map terms = records.map terms := by
  induction h with
  | nil => rfl
  | cons h _ ih => rw [List.map_cons, List.map_cons, h, ih]

theorem map_terms_eq (h : List.Forall₂ (Claimed now) records records') :
    records'.map terms = records.map terms :=
  map_terms_of_forall₂ (h.imp fun _ _ => Claimed.terms_eq)

theorem exists_of_claimed (h : List.Forall₂ (Claimed now) records records') (hr : r' ∈ records') :
    ∃ r ∈ records, Claimed now r r' := by
  induction h with
  | nil => cases hr
  | cons h _ ih =>
    rcases List.mem_cons.1 hr with rfl | hr
    · exact ⟨_, List.mem_cons_self, h⟩
    · obtain ⟨r, hr, hc⟩ := ih hr
      exact ⟨r, List.mem_cons_of_mem _ hr, hc⟩

/-- One record is replaced. -/
theorem forall₂_set {R : SettlementRecord → SettlementRecord → Prop} {place : ℕ}
    (hrefl : ∀ q, R q q) (hr : records[place]? = some r) (h : R r r') :
    List.Forall₂ R records (records.set place r') := by
  induction records generalizing place with
  | nil => cases hr
  | cons q rest ih =>
    cases place with
    | zero =>
      cases hr
      exact .cons h (List.forall₂_same.2 fun q _ => hrefl q)
    | succ place => exact .cons (hrefl q) (ih hr)

/-- One record is claimed. -/
theorem claimed_set {place : ℕ} (hr : records[place]? = some r) (hc : r.claim? now = some r') :
    List.Forall₂ (Claimed now) records (records.set place r') :=
  forall₂_set (fun _ => Or.inl rfl) hr (Or.inr hc)

/-- The first records in the queue are claimed, and no others. -/
theorem claimFirst_cases (now : Instant) (limit : ℕ) (records : List SettlementRecord) :
    List.Forall₂ (fun r r' => r' = r ∨ r.claim? now = some r' ∧
        r' ∈ (Store.claimFirst now limit records).1) records
        (Store.claimFirst now limit records).2 ∧
      (Store.claimFirst now limit records).1.Sublist (Store.claimFirst now limit records).2 ∧
      ∀ r' ∈ (Store.claimFirst now limit records).1, ∃ r ∈ records, r.claim? now = some r' := by
  induction records generalizing limit with
  | nil => cases limit <;> exact ⟨.nil, .slnil, fun r hr => (by cases hr)⟩
  | cons q rest ih =>
    cases limit with
    | zero =>
      exact ⟨List.forall₂_same.2 fun _ _ => Or.inl rfl, List.nil_sublist _,
        fun r hr => (by cases hr)⟩
    | succ limit =>
      unfold Store.claimFirst
      cases hc : q.claim? now with
      | some q' =>
        obtain ⟨hall, hsub, hfrom⟩ := ih limit
        refine ⟨.cons (Or.inr ⟨hc, List.mem_cons_self⟩) (hall.imp fun r r' h => ?_),
          hsub.cons_cons q', fun r hr => ?_⟩
        · exact h.imp id (And.imp_right (List.mem_cons_of_mem _))
        · rcases List.mem_cons.1 hr with rfl | hr
          · exact ⟨q, List.mem_cons_self, hc⟩
          · obtain ⟨p, hp, hpr⟩ := hfrom r hr
            exact ⟨p, List.mem_cons_of_mem _ hp, hpr⟩
      | none =>
        obtain ⟨hall, hsub, hfrom⟩ := ih (limit + 1)
        refine ⟨.cons (Or.inl rfl) hall, hsub.cons q, fun r hr => ?_⟩
        obtain ⟨p, hp, hpr⟩ := hfrom r hr
        exact ⟨p, List.mem_cons_of_mem _ hp, hpr⟩

theorem claimed_claimFirst (now : Instant) (limit : ℕ) (records : List SettlementRecord) :
    List.Forall₂ (Claimed now) records (Store.claimFirst now limit records).2 ∧
      ∀ r ∈ (Store.claimFirst now limit records).1, r ∈ (Store.claimFirst now limit records).2 := by
  obtain ⟨hall, hsub, -⟩ := claimFirst_cases now limit records
  exact ⟨hall.imp fun r r' h => h.imp id And.left, fun r hr => hsub.subset hr⟩

/-- A record is replaced by another one of the same trade and release. -/
theorem map_terms_set {place : ℕ} (hr : records[place]? = some r) (h : r'.terms = r.terms) :
    (records.set place r').map terms = records.map terms :=
  map_terms_of_forall₂ (forall₂_set (R := fun r r' => r'.terms = r.terms) (fun _ => rfl) hr h)

theorem terms_recordAttempt (r : SettlementRecord) (failure : Option String) (maxAttempts : UInt32)
    (now : Instant) : (r.recordAttempt failure maxAttempts now).terms = r.terms :=
  (r.sameOrigin_recordAttempt failure maxAttempts now).terms_eq

theorem terms_releaseClaim (r : SettlementRecord) : r.releaseClaim.terms = r.terms :=
  r.sameOrigin_releaseClaim.terms_eq

/-- An attempt settles a record only if it succeeded. -/
theorem settled_of_recordAttempt {failure : Option String} {maxAttempts : UInt32}
    (h : (r.recordAttempt failure maxAttempts now).status = .settled) :
    r.status = .settled ∨ failure = none := by
  unfold recordAttempt at h
  split at h
  · exact Or.inl h
  · cases failure with
    | none => exact Or.inr rfl
    | some reason =>
      dsimp only at h
      split at h <;> cases h

theorem settled_of_releaseClaim (h : r.releaseClaim.status = .settled) : r.status = .settled := by
  unfold releaseClaim at h
  split at h
  · cases h
  · exact h

theorem Claimed.settled (h : Claimed now r r') (hs : r'.status = .settled) :
    r.status = .settled := by
  rcases h with rfl | h
  · exact hs
  · rw [(claim?_eq_some_iff.1 h).2] at hs
    cases hs

/-- A successful attempt settles a record that is not given up. -/
theorem recordAttempt_success (h : r.status ≠ .failed) (maxAttempts : UInt32) (now : Instant) :
    (r.recordAttempt none maxAttempts now).status = .settled := by
  unfold recordAttempt
  cases hs : r.status with
  | failed => exact absurd hs h
  | settled => exact hs
  | pending => rfl
  | inFlight => rfl

end SettlementRecord

/-! ### Calls -/

/-- A call that claims records, gives one back or records an attempt. -/
def StoreCall.OfSettlements : StoreCall → Prop
  | claimSettlement _ => True
  | claimPending _ => True
  | recordAttempt _ _ _ => True
  | releaseClaim _ => True
  | _ => False

namespace Store

variable {s s' : Store} {stamp : Stamp} {c : StoreCall}

/-- The records of a store stay records of the same trades, with the same releases. A record is
settled now only if it was before, or if the call records a success. -/
structure RecordsKept (s s' : Store) (c : StoreCall) : Prop where
  terms_eq : s'.settlements.map SettlementRecord.terms = s.settlements.map SettlementRecord.terms
  settled : ∀ r' ∈ s'.settlements, r'.status = .settled →
    (∃ r ∈ s.settlements, r.trade.id = r'.trade.id ∧ r.status = .settled) ∨
      ∃ limit, c = .recordAttempt r'.trade.id none limit

theorem RecordsKept.of_eq (h : s'.settlements = s.settlements) : RecordsKept s s' c where
  terms_eq := by rw [h]
  settled r hr hs := Or.inl ⟨r, h ▸ hr, rfl, hs⟩

/-- One record is replaced. -/
theorem RecordsKept.set {place : ℕ} {r r' : SettlementRecord}
    (hplace : s.settlements[place]? = some r) (hterms : r'.terms = r.terms)
    (hstatus : r'.status = .settled →
      r.status = .settled ∨ ∃ limit, c = .recordAttempt r'.trade.id none limit) :
    RecordsKept s (s.setSettlement place r') c where
  terms_eq := SettlementRecord.map_terms_set hplace hterms
  settled q hq hs := by
    rcases List.mem_or_eq_of_mem_set hq with hq | rfl
    · exact Or.inl ⟨q, hq, rfl, hs⟩
    · have htrade : r.trade = q.trade := (congrArg Prod.fst hterms).symm
      rcases hstatus hs with hr | hcall
      · exact Or.inl ⟨r, List.mem_of_getElem? hplace, by rw [htrade], hr⟩
      · exact Or.inr hcall

theorem RecordsKept.claimed {now : Instant} {records : List SettlementRecord}
    (h : List.Forall₂ (SettlementRecord.Claimed now) s.settlements records) :
    RecordsKept s (s.withSettlements records) c where
  terms_eq := SettlementRecord.map_terms_eq h
  settled q hq hs := by
    obtain ⟨r, hr, hc⟩ := SettlementRecord.exists_of_claimed h hq
    exact Or.inl ⟨r, hr, by rw [show q.trade = r.trade from congrArg Prod.fst hc.terms_eq],
      hc.settled hs⟩

/-- What a call does to the settlement records, and to the trades. -/
inductive RecordsStep (s s' : Store) (c : StoreCall) : Prop where
  | kept (records : RecordsKept s s' c) (trades : s'.trades = s.trades)
  /-- A match whose release overflows has no record. -/
  | unrecorded (t : Trade) (records : RecordsKept s s' c) (trades : s'.trades = s.trades ++ [t])
  | recorded (r : SettlementRecord) (status_eq : r.status = .pending)
    (records : s'.settlements = s.settlements ++ [r]) (trades : s'.trades = s.trades ++ [r.trade])

theorem settlementRecord_create_eq_ok {now : Instant} {t : Trade} {limit : Decimal}
    {r : SettlementRecord} (h : SettlementRecord.create now t limit = .ok r) :
    r.trade = t ∧ r.status = .pending := by
  obtain ⟨improvement, -, release, -, rfl⟩ := SettlementRecord.create_eq_ok_iff.1 h
  exact ⟨rfl, rfl⟩

theorem attempts_of_create {now : Instant} {t : Trade} {limit : Decimal} {r : SettlementRecord}
    (h : SettlementRecord.create now t limit = .ok r) : r.attempts = 0 := by
  obtain ⟨improvement, -, release, -, rfl⟩ := SettlementRecord.create_eq_ok_iff.1 h
  rfl

/-- A call that is not for settlements leaves the records alone, or adds one to the queue. -/
theorem settlements_cases (s : Store) (stamp : Stamp) (hc : ¬c.OfSettlements) :
    (s.perform stamp c).2.settlements = s.settlements ∨
      ∃ r : SettlementRecord, r.status = .pending ∧ r.attempts = 0 ∧
        (s.perform stamp c).2.settlements = s.settlements ++ [r] ∧
        (s.perform stamp c).2.trades = s.trades ++ [r.trade] := by
  cases c with
  | claimSettlement id => exact absurd trivial hc
  | claimPending limit => exact absurd trivial hc
  | recordAttempt id failure limit => exact absurd trivial hc
  | releaseClaim id => exact absurd trivial hc
  | insertOrder o =>
    left
    simp only [perform, insertOrder]
    cases s.orders.find? o.id <;> rfl
  | transitionOrder id t =>
    left
    simp only [perform, transitionOrder]
    cases s.orders.find? id with
    | none => rfl
    | some o =>
      dsimp only
      cases t.apply o stamp.time <;> rfl
  | commitMatch makerId takerId quantity fees =>
    simp only [perform]
    obtain ⟨cause, h⟩ | ⟨e, h⟩ | ⟨maker, taker, m, -, ⟨e, -, h⟩ | ⟨r, hr, h⟩⟩ :=
      commitMatch_cases s stamp makerId takerId quantity fees
    · left
      rw [h]
    · left
      rw [h]
    · left
      rw [h]
      rfl
    · right
      obtain ⟨htrade, hstatus⟩ := settlementRecord_create_eq_ok hr
      rw [h]
      exact ⟨r, hstatus, attempts_of_create hr, rfl, by rw [htrade]; rfl⟩
  | _ => exact Or.inl rfl

theorem recordsStep (s : Store) (stamp : Stamp) (c : StoreCall) :
    RecordsStep s (s.perform stamp c).2 c := by
  cases c with
  | insertOrder o =>
    simp only [perform, insertOrder]
    cases s.orders.find? o.id <;> exact .kept (.of_eq rfl) rfl
  | transitionOrder id t =>
    simp only [perform, transitionOrder]
    cases s.orders.find? id with
    | none => exact .kept (.of_eq rfl) rfl
    | some o =>
      dsimp only
      cases t.apply o stamp.time <;> exact .kept (.of_eq rfl) rfl
  | commitMatch makerId takerId quantity fees =>
    simp only [perform]
    obtain ⟨cause, h⟩ | ⟨e, h⟩ | ⟨maker, taker, m, -, hrecord⟩ :=
      commitMatch_cases s stamp makerId takerId quantity fees
    · rw [h]
      exact .kept (.of_eq rfl) rfl
    · rw [h]
      exact .kept (.of_eq rfl) rfl
    · obtain ⟨e, -, h⟩ | ⟨r, hr, h⟩ := hrecord
      · rw [h]
        exact .unrecorded m.trade (.of_eq rfl) rfl
      · rw [h]
        obtain ⟨htrade, hstatus⟩ := settlementRecord_create_eq_ok hr
        exact .recorded r hstatus rfl (by rw [htrade]; rfl)
  | claimSettlement id =>
    simp only [perform]
    cases h : s.claimSettlement id stamp.time with
    | error e => exact .kept (.of_eq rfl) rfl
    | ok found =>
      obtain ⟨found, s'⟩ := found
      obtain ⟨place, r, hr, ⟨-, -, rfl⟩ | ⟨r', hclaim, -, rfl⟩⟩ := claimSettlement_eq_ok h
      · exact .kept (.of_eq rfl) rfl
      · exact .kept (.claimed (SettlementRecord.claimed_set (requireSettlement_eq_ok hr).1 hclaim))
          rfl
  | claimPending limit =>
    have hclaimed := SettlementRecord.claimed_claimFirst stamp.time limit.toNat s.settlements
    simp only [perform, claimPending_eq]
    exact .kept (.claimed hclaimed.1) rfl
  | recordAttempt id failure limit =>
    simp only [perform]
    cases h : s.recordAttempt id failure limit stamp.time with
    | error e => exact .kept (.of_eq rfl) rfl
    | ok found =>
      obtain ⟨r', s'⟩ := found
      obtain ⟨place, r, hr, rfl, rfl⟩ := recordAttempt_eq_ok h
      obtain ⟨hplace, hid⟩ := requireSettlement_eq_ok hr
      have hterms := r.terms_recordAttempt failure limit stamp.time
      refine .kept (.set hplace hterms fun hs => ?_) rfl
      rcases SettlementRecord.settled_of_recordAttempt hs with hs | rfl
      · exact Or.inl hs
      · refine Or.inr ⟨limit, ?_⟩
        rw [r.trade_recordAttempt none limit stamp.time, hid]
  | releaseClaim id =>
    simp only [perform]
    cases h : s.releaseClaim id with
    | error e => exact .kept (.of_eq rfl) rfl
    | ok s' =>
      obtain ⟨place, r, hr, rfl⟩ := releaseClaim_eq_ok h
      exact .kept (.set (requireSettlement_eq_ok hr).1 r.terms_releaseClaim fun hs =>
        Or.inl (SettlementRecord.settled_of_releaseClaim hs)) rfl
  | _ => exact .kept (.of_eq rfl) rfl

namespace RecordsStep

variable (h : RecordsStep s s' c)

include h

theorem trades_subset : s.trades ⊆ s'.trades := by
  intro t ht
  cases h with
  | kept records trades => rwa [trades]
  | unrecorded t' records trades =>
    rw [trades]
    exact List.mem_append_left _ ht
  | recorded r status_eq records trades =>
    rw [trades]
    exact List.mem_append_left _ ht

/-- The only new record is one of a new trade. -/
theorem terms_cases :
    s'.settlements.map SettlementRecord.terms = s.settlements.map SettlementRecord.terms ∨
      ∃ r : SettlementRecord, r.trade ∈ s'.trades.drop s.trades.length ∧
        s'.settlements.map SettlementRecord.terms =
          s.settlements.map SettlementRecord.terms ++ [r.terms] := by
  cases h with
  | kept records trades => exact Or.inl records.terms_eq
  | unrecorded t records trades => exact Or.inl records.terms_eq
  | recorded r status_eq records trades =>
    refine Or.inr ⟨r, ?_, ?_⟩
    · rw [trades, List.drop_left]
      exact List.mem_singleton_self _
    · rw [records, List.map_append]
      rfl

theorem terms_subset :
    s.settlements.map SettlementRecord.terms ⊆ s'.settlements.map SettlementRecord.terms := by
  intro p hp
  rcases h.terms_cases with heq | ⟨r, -, heq⟩
  · rwa [heq]
  · rw [heq]
    exact List.mem_append_left _ hp

theorem settled {r' : SettlementRecord} (hr' : r' ∈ s'.settlements) (hs : r'.status = .settled) :
    (∃ r ∈ s.settlements, r.trade.id = r'.trade.id ∧ r.status = .settled) ∨
      ∃ limit, c = .recordAttempt r'.trade.id none limit := by
  cases h with
  | kept records trades => exact records.settled r' hr' hs
  | unrecorded t records trades => exact records.settled r' hr' hs
  | recorded r status_eq records trades =>
    rw [records] at hr'
    rcases List.mem_append.1 hr' with hr' | hr'
    · exact Or.inl ⟨r', hr', rfl, hs⟩
    · rw [List.mem_singleton.1 hr', status_eq] at hs
      cases hs

/-- Where every record is one of a recorded trade, it stays so. -/
theorem trade_mem (hrecorded : ∀ r ∈ s.settlements, r.trade ∈ s.trades) {r' : SettlementRecord}
    (hr' : r' ∈ s'.settlements) : r'.trade ∈ s'.trades := by
  have hmem : r'.terms ∈ s'.settlements.map SettlementRecord.terms := List.mem_map_of_mem hr'
  have hold : r'.terms ∈ s.settlements.map SettlementRecord.terms → r'.trade ∈ s'.trades := by
    intro hterms
    obtain ⟨r, hr, heq⟩ := List.mem_map.1 hterms
    have htrade : r.trade = r'.trade := congrArg Prod.fst heq
    rw [← htrade]
    exact h.trades_subset (hrecorded r hr)
  rcases h.terms_cases with heq | ⟨r, hr, heq⟩
  · rw [heq] at hmem
    exact hold hmem
  · rw [heq] at hmem
    rcases List.mem_append.1 hmem with hmem | hmem
    · exact hold hmem
    · have htrade : r'.trade = r.trade := congrArg Prod.fst (List.mem_singleton.1 hmem)
      rw [htrade]
      exact List.mem_of_mem_drop hr

end RecordsStep

/-- A store that is built up again has the same records, and settled ones were settled before. -/
theorem recordsKept_ofSnapshot (s : Store) (c : StoreCall) :
    RecordsKept s (ofSnapshot s.snapshot) c where
  terms_eq := by
    rw [settlements_ofSnapshot, List.map_map]
    exact List.map_congr_left fun r _ => r.terms_releaseClaim
  settled r' hr' hs := by
    rw [settlements_ofSnapshot] at hr'
    obtain ⟨r, hr, rfl⟩ := List.mem_map.1 hr'
    refine Or.inl ⟨r, hr, ?_, SettlementRecord.settled_of_releaseClaim hs⟩
    rw [r.trade_releaseClaim]

end Store

end Bourse
