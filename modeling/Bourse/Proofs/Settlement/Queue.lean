import Bourse.Proofs.Settlement.InFlight
import Bourse.Proofs.Settlement.Outbox

/-!
# The queue of settlements

The pending records, the oldest first, are the queue. A round attempts the first few of them; a
failed one keeps its place, so the same record may be attempted again before a younger one has its
turn. What falls with every attempt is the backlog, the number of attempts that the queue can still
take.
-/

namespace Bourse

namespace SettlementRecord

/-- Whether the record waits for a settler. -/
def isPending (r : SettlementRecord) : Bool := r.status = .pending

/-- How many attempts the pending records can take, if each one is given up after `limit`. A record
that has had as many already takes one more. -/
def backlog (limit : UInt32) (records : List SettlementRecord) : ℕ :=
  ((records.filter isPending).map fun r => max 1 (limit.toNat - r.attempts.toNat)).sum

/-- As long as it is not finished, a record has had less attempts than can be counted. -/
def Countable (r : SettlementRecord) : Prop :=
  r.status.isFinished = false → ∃ limit, r.attempts < limit

/-- The records after the first `limit` pending ones are attempted. The function says what the
attempt at each place of the queue makes of the record. -/
def attemptFirst (attempt : ℕ → SettlementRecord → SettlementRecord) :
    ℕ → List SettlementRecord → List SettlementRecord
  | _, [] => []
  | 0, records => records
  | limit + 1, r :: rest =>
    if r.isPending then attempt 0 r :: attemptFirst (fun i => attempt (i + 1)) limit rest
    else r :: attemptFirst attempt (limit + 1) rest

variable {r r' : SettlementRecord} {now : Instant} {limit : UInt32}
  {records : List SettlementRecord} {attempt : ℕ → SettlementRecord → SettlementRecord}

theorem isPending_iff : r.isPending = true ↔ r.status = .pending := decide_eq_true_iff

theorem claim?_of_not_isPending (h : r.isPending = false) : r.claim? now = none :=
  if_neg fun hs => by simp [isPending, hs] at h

theorem exists_claim (h : r.isPending = true) (now : Instant) : ∃ r', r.claim? now = some r' :=
  ⟨_, if_pos (isPending_iff.1 h)⟩

/-- It makes no difference to an attempt that the record was claimed for it. -/
theorem recordAttempt_of_claim (h : r.claim? now = some r') (failure : Option String)
    (limit : UInt32) (later : Instant) :
    r'.recordAttempt failure limit later = r.recordAttempt failure limit later := by
  obtain ⟨hstatus, rfl⟩ := claim?_eq_some_iff.1 h
  rw [recordAttempt, recordAttempt, hstatus]
  rfl

/-! ### Counting attempts -/

theorem Countable.claim (hr : r.Countable) (h : r.claim? now = some r') : r'.Countable := by
  obtain ⟨hstatus, rfl⟩ := claim?_eq_some_iff.1 h
  exact fun _ => hr (by rw [hstatus]; rfl)

theorem Countable.releaseClaim (hr : r.Countable) : r.releaseClaim.Countable := by
  unfold SettlementRecord.releaseClaim
  split
  · rename_i hstatus
    exact fun _ => hr (by rw [hstatus]; rfl)
  · exact hr

theorem Countable.recordAttempt (hr : r.Countable) (failure : Option String) (limit : UInt32)
    (now : Instant) : (r.recordAttempt failure limit now).Countable := by
  unfold SettlementRecord.recordAttempt
  split
  · exact hr
  · cases failure with
    | none => exact fun h => (by cases h)
    | some reason =>
      intro h
      dsimp only at h ⊢
      split at h
      · cases h
      · rename_i hlimit
        exact ⟨limit, UInt32.not_le.1 hlimit⟩

/-- An attempt at a pending record uses up some of what the queue can take. -/
theorem backlog_recordAttempt_lt (hr : r.Countable) (hp : r.isPending = true)
    (failure : Option String) (limit : UInt32) (now : Instant) :
    backlog limit [r.recordAttempt failure limit now] < backlog limit [r] := by
  have hstatus := isPending_iff.1 hp
  obtain ⟨larger, hlarger⟩ := hr (by rw [hstatus]; rfl)
  obtain ⟨hsucc, -⟩ := nextAttempt_of_lt hlarger
  rw [recordAttempt, hstatus, if_neg (by decide)]
  cases failure with
  | none => simp [backlog, isPending, hstatus]
  | some reason =>
    by_cases hlast : limit ≤ r.attempts + 1
    · simp [backlog, isPending, hstatus, hlast]
    · have hlt : r.attempts.toNat + 1 < limit.toNat := by
        rw [← hsucc, ← UInt32.lt_iff_toNat_lt]
        exact UInt32.not_le.1 hlast
      simp only [backlog, isPending, hstatus, hlast, if_false, decide_true, List.filter_cons_of_pos,
        List.filter_nil, List.map_cons, List.map_nil, List.sum_cons, List.sum_nil, hsucc]
      omega

theorem backlog_cons (limit : UInt32) (r : SettlementRecord) (rest : List SettlementRecord) :
    backlog limit (r :: rest) = backlog limit [r] + backlog limit rest := by
  by_cases hp : r.isPending = true <;> simp [backlog, hp]

/-- With nothing left to attempt the queue is empty. -/
theorem backlog_eq_zero_iff : backlog limit records = 0 ↔ records.filter isPending = [] := by
  refine ⟨fun h => List.eq_nil_iff_forall_not_mem.2 fun r hr => ?_, fun h => by simp [backlog, h]⟩
  have hle := List.le_sum_of_mem (List.mem_map_of_mem
    (f := fun r : SettlementRecord => max 1 (limit.toNat - r.attempts.toNat)) hr)
  rw [show (List.map _ _).sum = 0 from h] at hle
  omega

/-! ### A round -/

/-- Every attempt of a round counts. -/
theorem backlog_attemptFirst_le (n : ℕ)
    (hless : ∀ i, ∀ r ∈ records, r.isPending = true →
      backlog limit [attempt i r] < backlog limit [r]) :
    backlog limit (attemptFirst attempt n records) + min n (records.filter isPending).length ≤
      backlog limit records := by
  induction records generalizing n attempt with
  | nil => simp [attemptFirst, backlog]
  | cons r rest ih =>
    obtain ⟨hr, hrest⟩ := forall_and.1 fun i => List.forall_mem_cons.1 (hless i)
    cases n with
    | zero => simp [attemptFirst]
    | succ n =>
      rw [backlog_cons limit r rest]
      by_cases hp : r.isPending = true
      · have hhead := hr 0 hp
        have htail := ih n fun i => hrest (i + 1)
        rw [attemptFirst, if_pos hp, backlog_cons, List.filter_cons_of_pos hp, List.length_cons]
        omega
      · have htail := ih (n + 1) hrest
        rw [attemptFirst, if_neg hp, backlog_cons, List.filter_cons_of_neg hp]
        omega

theorem mem_attemptFirst {n : ℕ} (hr : r' ∈ attemptFirst attempt n records) :
    r' ∈ records ∨ ∃ i, ∃ r ∈ records, r' = attempt i r := by
  induction records generalizing n attempt with
  | nil => cases n <;> exact Or.inl hr
  | cons r rest ih =>
    cases n with
    | zero => exact Or.inl hr
    | succ n =>
      rw [attemptFirst] at hr
      split at hr
      · rcases List.mem_cons.1 hr with rfl | hr
        · exact Or.inr ⟨0, r, List.mem_cons_self, rfl⟩
        · obtain hr | ⟨i, q, hq, rfl⟩ := ih hr
          · exact Or.inl (List.mem_cons_of_mem _ hr)
          · exact Or.inr ⟨i + 1, q, List.mem_cons_of_mem _ hq, rfl⟩
      · rcases List.mem_cons.1 hr with rfl | hr
        · exact Or.inl List.mem_cons_self
        · obtain hr | ⟨i, q, hq, rfl⟩ := ih hr
          · exact Or.inl (List.mem_cons_of_mem _ hr)
          · exact Or.inr ⟨i, q, List.mem_cons_of_mem _ hq, rfl⟩

theorem map_tradeId_attemptFirst (n : ℕ) (htrade : ∀ i r, (attempt i r).tradeId = r.tradeId) :
    (attemptFirst attempt n records).map tradeId = records.map tradeId := by
  induction records generalizing n attempt with
  | nil => cases n <;> rfl
  | cons r rest ih =>
    cases n with
    | zero => rfl
    | succ n =>
      rw [attemptFirst]
      split
      · rw [List.map_cons, List.map_cons, htrade, ih n fun i => htrade (i + 1)]
      · rw [List.map_cons, List.map_cons, ih (n + 1) htrade]

/-- Record by record, a round makes the attempt with the number `i` at the record at place `i` of
the queue, up to its limit, and leaves every other record as it is. -/
theorem attemptFirst_eq_map (n : ℕ) (h : records.Nodup) :
    attemptFirst attempt n records = records.map fun r =>
      match ((records.filter isPending).take n).idxOf? r with
      | some i => attempt i r
      | none => r := by
  induction records generalizing n attempt with
  | nil => cases n <;> rfl
  | cons r rest ih =>
    obtain ⟨hr, hrest⟩ := List.nodup_cons.1 h
    cases n with
    | zero => simp [attemptFirst]
    | succ n =>
      rw [attemptFirst]
      split <;> rename_i hp
      · rw [ih n hrest, List.filter_cons_of_pos hp, List.take_succ_cons, List.map_cons]
        refine congrArg₂ List.cons (by simp [List.idxOf?_cons]) (List.map_congr_left fun q hq => ?_)
        have hne : r ≠ q := fun e => hr (e ▸ hq)
        rw [List.idxOf?_cons, if_neg (by simpa using hne)]
        cases List.idxOf? q (List.take n (rest.filter isPending)) <;> rfl
      · rw [ih (n + 1) hrest, List.filter_cons_of_neg hp, List.map_cons]
        have hout : r ∉ List.take (n + 1) (rest.filter isPending) :=
          fun hmem => hr (List.mem_of_mem_filter (List.mem_of_mem_take hmem))
        rw [List.idxOf?_eq_none_iff.2 hout]

end SettlementRecord

/-! ### The records of a store -/

open SettlementRecord in
/-- Each record is found under the name of its trade, and attempts at it can be counted. -/
structure Queued (records : List SettlementRecord) : Prop where
  names_nodup : (records.map tradeId).Nodup
  countable : ∀ r ∈ records, r.Countable

namespace Queued

variable {records : List SettlementRecord} {attempt : ℕ → SettlementRecord → SettlementRecord}

theorem nodup (h : Queued records) : records.Nodup := List.Nodup.of_map _ h.names_nodup

theorem attemptFirst (h : Queued records) (n : ℕ)
    (htrade : ∀ i r, (attempt i r).tradeId = r.tradeId)
    (hcountable : ∀ i, ∀ r ∈ records, (attempt i r).Countable) :
    Queued (SettlementRecord.attemptFirst attempt n records) where
  names_nodup := by
    rw [SettlementRecord.map_tradeId_attemptFirst n htrade]
    exact h.names_nodup
  countable r hr := by
    obtain hr | ⟨i, q, hq, rfl⟩ := SettlementRecord.mem_attemptFirst hr
    · exact h.countable r hr
    · exact hcountable i q hq

end Queued

namespace Store

variable {s : Store} {stamp : Stamp} {c : StoreCall}

/-- The records that wait for a settler, the oldest first. -/
def queue (s : Store) : List SettlementRecord :=
  s.settlements.filter SettlementRecord.isPending

theorem countable_perform (h : ∀ r ∈ s.settlements, r.Countable) (stamp : Stamp) (c : StoreCall) :
    ∀ r ∈ (s.perform stamp c).2.settlements, r.Countable := by
  -- One record is replaced.
  have hset : ∀ place r, r.Countable → ∀ q ∈ s.settlements.set place r, q.Countable := by
    intro place r hr q hq
    rcases List.mem_or_eq_of_mem_set hq with hq | rfl
    · exact h q hq
    · exact hr
  by_cases hc : c.OfSettlements
  swap
  · -- The call may add a new record, which has had no attempt.
    intro r hr
    rcases s.settlements_cases stamp hc with heq | ⟨new, -, hattempts, heq, -⟩
    · exact h r (heq ▸ hr)
    · rw [heq] at hr
      rcases List.mem_append.1 hr with hr | hr
      · exact h r hr
      · rw [List.mem_singleton.1 hr]
        exact fun _ => ⟨1, by rw [hattempts]; decide⟩
  cases c with
  | claimSettlement id =>
    simp only [perform]
    cases hclaim : s.claimSettlement id stamp.time with
    | error e => exact h
    | ok found =>
      obtain ⟨found, s'⟩ := found
      obtain ⟨place, r, hr, ⟨-, -, rfl⟩ | ⟨r', hc, -, rfl⟩⟩ := claimSettlement_eq_ok hclaim
      · exact h
      · have hmem := List.mem_of_getElem? (requireSettlement_eq_ok hr).1
        exact hset place r' ((h r hmem).claim hc)
  | claimPending limit =>
    intro r' hr'
    obtain ⟨hall, -⟩ := SettlementRecord.claimed_claimFirst stamp.time limit.toNat s.settlements
    obtain ⟨r, hr, rfl | hc⟩ := SettlementRecord.exists_of_claimed hall hr'
    · exact h _ hr
    · exact (h r hr).claim hc
  | recordAttempt id failure limit =>
    simp only [perform]
    cases hattempt : s.recordAttempt id failure limit stamp.time with
    | error e => exact h
    | ok found =>
      obtain ⟨r', s'⟩ := found
      obtain ⟨place, r, hr, rfl, rfl⟩ := recordAttempt_eq_ok hattempt
      have hmem := List.mem_of_getElem? (requireSettlement_eq_ok hr).1
      exact hset place _ ((h r hmem).recordAttempt failure limit stamp.time)
  | releaseClaim id =>
    simp only [perform]
    cases hrelease : s.releaseClaim id with
    | error e => exact h
    | ok s' =>
      obtain ⟨place, r, hr, rfl⟩ := releaseClaim_eq_ok hrelease
      exact hset place _ (h r (List.mem_of_getElem? (requireSettlement_eq_ok hr).1)).releaseClaim
  | _ => exact hc.elim

theorem names_nodup_perform (hnodup : (s.settlements.map SettlementRecord.tradeId).Nodup)
    (hrecorded : ∀ r ∈ s.settlements, r.trade ∈ s.trades)
    (hfresh : s.NamesFreshly (.call stamp c)) :
    ((s.perform stamp c).2.settlements.map SettlementRecord.tradeId).Nodup := by
  have hnames : ∀ records : List SettlementRecord,
      records.map SettlementRecord.terms = s.settlements.map SettlementRecord.terms →
      (records.map SettlementRecord.tradeId).Nodup := by
    intro records hterms
    have htrades := congrArg (List.map Trade.id) (map_trade_eq hterms)
    rw [List.map_map, List.map_map] at htrades
    exact (show records.map SettlementRecord.tradeId = _ from htrades) ▸ hnodup
  cases s.recordsStep stamp c with
  | kept records _ => exact hnames _ records.terms_eq
  | unrecorded t records _ => exact hnames _ records.terms_eq
  | recorded r _ records trades =>
    have hnew : (s.perform stamp c).2.trades ≠ s.trades := by simp [trades]
    cases s.ordersStep stamp c with
    | unchanged _ htrades => exact (hnew htrades).elim
    | inserted _ _ htrades => exact (hnew htrades).elim
    | transitioned _ _ _ htrades => exact (hnew htrades).elim
    | matched hm _ htrades =>
      have htrade : r.trade = _ := List.singleton_inj.1
        (List.append_cancel_left (trades.symm.trans htrades))
      rw [records, List.map_append, List.map_singleton, List.nodup_append]
      refine ⟨hnodup, List.nodup_singleton _, fun id hid id' hid' => ?_⟩
      obtain ⟨q, hq, rfl⟩ := List.mem_map.1 hid
      rw [List.mem_singleton.1 hid', show r.tradeId = _ from congrArg Trade.id htrade, hm.trade_id]
      exact hfresh q.trade (hrecorded q hq)

/-- However a store is used, and restarted in between, with fresh names for trades. -/
theorem queued_afterActs {acts : List StoreAct} (hfresh : empty.RunsFreshly acts) :
    Queued (empty.afterActs acts).settlements := by
  suffices h : ∀ s : Store, Queued s.settlements → (∀ r ∈ s.settlements, r.trade ∈ s.trades) →
      s.RunsFreshly acts → Queued (s.afterActs acts).settlements from
    h empty ⟨List.nodup_nil, fun r hr => by cases hr⟩ (fun r hr => by cases hr) hfresh
  clear hfresh
  induction acts with
  | nil => exact fun s h _ _ => h
  | cons a acts ih =>
    rintro s h hrecorded ⟨ha, hacts⟩
    refine ih (s.act a) ?_ ?_ hacts
    · cases a with
      | call stamp c =>
        exact ⟨names_nodup_perform h.names_nodup hrecorded ha,
          countable_perform h.countable stamp c⟩
      | restart =>
        refine ⟨?_, fun r hr => ?_⟩
        · show (s.restart.settlements.map _).Nodup
          rw [settlements_restart, List.map_map, List.map_congr_left fun r _ => show _ = r.tradeId from
            congrArg Trade.id (r.sameOrigin_releaseClaim).trade_eq]
          exact h.names_nodup
        · rw [show s.act .restart = s.restart from rfl, settlements_restart] at hr
          obtain ⟨q, hq, rfl⟩ := List.mem_map.1 hr
          exact (h.countable q hq).releaseClaim
    · intro r hr
      cases a with
      | call stamp c => exact (s.recordsStep stamp c).trade_mem hrecorded hr
      | restart =>
        rw [show s.act .restart = s.restart from rfl, settlements_restart] at hr
        obtain ⟨q, hq, rfl⟩ := List.mem_map.1 hr
        rw [show s.act .restart = s.restart from rfl, trades_restart,
          (q.sameOrigin_releaseClaim).trade_eq]
        exact hrecorded q hq

end Store

end Bourse
