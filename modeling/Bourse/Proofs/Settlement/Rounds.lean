import Bourse.Proofs.Matching.Agreement
import Bourse.Proofs.Settlement.Queue

/-!
# Rounds of a settler

However the ledger answers, a round of a settler attempts the first records of the queue, up to its
size, one after the other, and leaves everything else as it is. A record that failed may be
attempted again, but only as often as its limit says. So as long as no trades are added, the queue
is empty after as many rounds as its backlog, and a record that fails for ever does not keep the
younger ones waiting for ever.
-/

namespace Bourse

open SettlementRecord (isPending backlog attemptFirst)

/-! ### What the ledger is asked -/

section Asks

variable {σ α β ε δ : Type} {h : Work.Handler σ}

/-- The calls to the ledger that a piece of work makes from a state, one after the other. -/
def Work.ledgerCalls (h : Work.Handler σ) : Work α → σ → List LedgerCall
  | done _, _ => []
  | call c next, s =>
    let rest := (next (h c s).1).ledgerCalls h (h c s).2
    match c with
    | .ledger c => c :: rest
    | _ => rest

theorem Work.ledgerCalls_bind (w : Work α) (f : α → Work β) (s : σ) :
    (w.bind f).ledgerCalls h s =
      w.ledgerCalls h s ++ (f (w.run h s).1).ledgerCalls h (w.run h s).2 := by
  induction w generalizing s with
  | done a => rfl
  | call c next ih =>
    cases c with
    | ledger c => exact congrArg (List.cons c) (ih _ _)
    | stamp => exact ih _ _
    | store c => exact ih _ _

/-- Done from a state, a task comes to a result and to a state, and asks the ledger on the way. -/
structure Task.Asks (h : Work.Handler σ) (t : Task ε α) (x : σ) (calls : List LedgerCall)
    (r : Except ε α) (y : σ) : Prop where
  ends : t.Ends h x r y
  calls_eq : t.work.ledgerCalls h x = calls

namespace Task.Asks

variable {t : Task ε α} {x y z : σ} {calls calls' : List LedgerCall}

theorem bind {f : α → Task ε β} {a : α} {r : Except ε β} (ht : Asks h t x calls (.ok a) y)
    (hf : Asks h (f a) y calls' r z) : Asks h (t >>= f) x (calls ++ calls') r z where
  ends := ht.ends.bind hf.ends
  calls_eq := by
    refine (Work.ledgerCalls_bind t.work _ x).trans ?_
    rw [show t.work.run h x = _ from ht.ends, ht.calls_eq]
    exact congrArg (calls ++ ·) hf.calls_eq

theorem attempt {r : Except ε α} (ht : Asks h t x calls r y) :
    Asks h (t.attempt : Task δ (Except ε α)) x calls (.ok r) y where
  ends := ht.ends.attempt
  calls_eq := by
    refine (Work.ledgerCalls_bind t.work _ x).trans ?_
    rw [show t.work.run h x = _ from ht.ends, ht.calls_eq]
    exact List.append_nil calls

theorem pure {a : α} : Asks h (Pure.pure a : Task ε α) x [] (.ok a) x := ⟨rfl, rfl⟩

end Task.Asks

end Asks

namespace DrainSummary

/-- How many records a round was about. -/
def total (s : DrainSummary) : ℕ := s.settled + s.retrying + s.failed

theorem total_foldl_count (l : List SettlementRecord) (s : DrainSummary) :
    (l.foldl (fun s r => s.count r.status) s).total = s.total + l.length := by
  induction l generalizing s with
  | nil => rfl
  | cons r rest ih =>
    rw [List.foldl_cons, ih, List.length_cons]
    cases r.status <;> simp only [count, total] <;> omega

end DrainSummary

namespace SettlementRecord

/-- The call that settles a record. -/
def settleCall (r : SettlementRecord) : LedgerCall := .settle r.trade r.buyerRelease

/-- The record after the attempt with the number `i` of a round. The first one comes when so many
stamps are drawn and the ledger was asked so often. -/
def attemptAt (stamps : ℕ → Stamp) (answers : LedgerAnswers) (limit : UInt32) (drawn asked i : ℕ)
    (r : SettlementRecord) : SettlementRecord :=
  r.recordAttempt (Settler.failure? (answers (asked + i) r.settleCall)) limit
    (stamps (drawn + i)).time

end SettlementRecord

/-- The records of the queue that a settler attempts in a round. -/
def Settler.batch (settler : Settler) (s : Store) : List SettlementRecord :=
  s.queue.take settler.batchSize.toNat

namespace Desk

open SettlementRecord (attemptAt settleCall)

variable {stamps : ℕ → Stamp} {answers : LedgerAnswers} {settler : Settler} {x y : Desk}

/-- A round of a settler: the batch is taken to the ledger record by record, the summary counts how
the attempts ended, and nothing else is changed. -/
structure Drains (stamps : ℕ → Stamp) (answers : LedgerAnswers) (settler : Settler) (x : Desk)
    (summary : DrainSummary) (y : Desk) : Prop where
  asks : settler.drain.Asks (handler stamps answers) x ((settler.batch x.store).map settleCall)
    (.ok summary) y
  store_eq : y.store = x.store.withSettlements (x.store.settlements.map fun r =>
    match (settler.batch x.store).idxOf? r with
    | some i => r.attemptAt stamps answers settler.maxAttempts (x.drawn + 1) x.asked i
    | none => r)
  summary_eq : summary = ((settler.batch x.store).mapIdx
    (attemptAt stamps answers settler.maxAttempts (x.drawn + 1) x.asked)).foldl
      (fun s r => s.count r.status) .empty
  total_eq : summary.settled + summary.retrying + summary.failed =
    min settler.batchSize.toNat x.store.queue.length

/-- From one desk to another by a number of rounds. Between two rounds the store may be used, as
long as the settlement records stay as they are. -/
inductive Rounds (stamps : ℕ → Stamp) (answers : LedgerAnswers) (settler : Settler) (x : Desk) :
    ℕ → Desk → Prop where
  | start : Rounds stamps answers settler x 0 x
  | round {n : ℕ} {y z : Desk} (before : Rounds stamps answers settler x n y)
    (settlements_eq : z.store.settlements =
      (settler.drain.work.run (handler stamps answers) y).2.store.settlements) :
    Rounds stamps answers settler x (n + 1) z

/-- A round right after the others. -/
theorem Rounds.again {n : ℕ} (h : Rounds stamps answers settler x n y) :
    Rounds stamps answers settler x (n + 1)
      (settler.drain.work.run (handler stamps answers) y).2 :=
  h.round rfl

theorem attemptAt_succ (limit : UInt32) (drawn asked : ℕ) :
    (fun i => attemptAt stamps answers limit drawn asked (i + 1)) =
      attemptAt stamps answers limit (drawn + 1) (asked + 1) := by
  funext i r
  simp only [attemptAt, Nat.add_assoc, Nat.add_comm 1 i]

theorem settleCall_of_claim {now : Instant} {r r' : SettlementRecord}
    (h : r.claim? now = some r') : r'.settleCall = r.settleCall := by
  rw [(SettlementRecord.claim?_eq_some_iff.1 h).2]
  rfl

theorem attemptAt_of_claim {now : Instant} {r r' : SettlementRecord} (h : r.claim? now = some r')
    (limit : UInt32) (drawn asked i : ℕ) :
    r'.attemptAt stamps answers limit drawn asked i =
      r.attemptAt stamps answers limit drawn asked i := by
  rw [attemptAt, attemptAt, settleCall_of_claim h, SettlementRecord.recordAttempt_of_claim h]

theorem tradeId_attemptAt (limit : UInt32) (drawn asked i : ℕ) (r : SettlementRecord) :
    (r.attemptAt stamps answers limit drawn asked i).tradeId = r.tradeId :=
  congrArg Trade.id (r.sameOrigin_recordAttempt _ _ _).trade_eq

theorem map_tradeId_claimFirst (now : Instant) (n : ℕ) (records : List SettlementRecord) :
    (Store.claimFirst now n records).2.map SettlementRecord.tradeId =
      records.map SettlementRecord.tradeId := by
  have htrades := congrArg (List.map Trade.id) (Store.map_trade_eq
    (SettlementRecord.map_terms_eq (SettlementRecord.claimed_claimFirst now n records).1))
  rwa [List.map_map, List.map_map] at htrades

/-- The attempt at a record changes just this record. -/
theorem asks_settleClaimed (stamps : ℕ → Stamp) (answers : LedgerAnswers) (settler : Settler)
    {s : Store} {r : SettlementRecord} {l₁ l₂ : List SettlementRecord}
    (hl : s.settlements = l₁ ++ r :: l₂)
    (hnodup : (s.settlements.map SettlementRecord.tradeId).Nodup) (drawn asked : ℕ) :
    let r' := r.attemptAt stamps answers settler.maxAttempts drawn asked 0
    (settler.settleClaimed r).Asks (handler stamps answers) ⟨s, drawn, asked⟩ [r.settleCall]
      (.ok r') ⟨s.withSettlements (l₁ ++ r' :: l₂), drawn + 1, asked + 1⟩ := by
  intro r'
  have hplace : s.requireSettlement r.trade.id = .ok (l₁.length, r) :=
    (Store.requireSettlement_eq_ok_iff hnodup).2 ⟨by rw [hl]; simp, rfl⟩
  have hledger : (Task.ledger r.settleCall).Asks (handler stamps answers) ⟨s, drawn, asked⟩
      [r.settleCall] (answers asked r.settleCall) ⟨s, drawn, asked + 1⟩ := ⟨rfl, rfl⟩
  have hrecord : (Task.store (.recordAttempt r.trade.id
      (Settler.failure? (answers asked r.settleCall)) settler.maxAttempts)).Asks
      (handler stamps answers) ⟨s, drawn, asked + 1⟩ [] (.ok r')
      ⟨s.withSettlements (l₁ ++ r' :: l₂), drawn + 1, asked + 1⟩ := by
    refine ⟨ends_store ?_, rfl⟩
    rw [Store.perform_recordAttempt hplace]
    refine congrArg (Prod.mk _) ?_
    rw [Store.setSettlement, hl, List.set_append_right _ _ le_rfl, Nat.sub_self, List.set_cons_zero]
    rfl
  exact hledger.attempt.bind (hrecord.attempt.bind .pure)

/-- The first records of the queue are claimed, and then attempted one by one. The records before
`records` are done with. -/
theorem asks_settleAll (stamps : ℕ → Stamp) (answers : LedgerAnswers) (settler : Settler)
    (now : Instant) (n : ℕ) (done records : List SettlementRecord) (s : Store)
    (hnodup : ((done ++ records).map SettlementRecord.tradeId).Nodup) (drawn asked : ℕ)
    (summary : DrainSummary) :
    let attempt := attemptAt stamps answers settler.maxAttempts drawn asked
    let batch := (records.filter isPending).take n
    ∃ y, (settler.settleAll (Store.claimFirst now n records).1 summary).Asks
        (handler stamps answers)
        ⟨s.withSettlements (done ++ (Store.claimFirst now n records).2), drawn, asked⟩
        (batch.map settleCall)
        (.ok ((batch.mapIdx attempt).foldl (fun s r => s.count r.status) summary)) y ∧
      y.store = s.withSettlements (done ++ attemptFirst attempt n records) := by
  induction records generalizing n done drawn asked summary with
  | nil => cases n <;> exact ⟨_, .pure, rfl⟩
  | cons r rest ih =>
    cases n with
    | zero => exact ⟨_, .pure, rfl⟩
    | succ n =>
      intro attempt batch
      -- The record in front has been passed: it keeps its name, whatever it became.
      have hnames : ∀ q : SettlementRecord, q.tradeId = r.tradeId →
          ((done ++ [q] ++ rest).map SettlementRecord.tradeId).Nodup := by
        intro q hq
        simpa [hq] using hnodup
      by_cases hp : r.isPending = true
      · obtain ⟨r', hclaim⟩ := r.exists_claim hp now
        have hr' : r'.tradeId = r.tradeId :=
          congrArg Trade.id (SettlementRecord.sameOrigin_of_claim hclaim).trade_eq
        have hbatch : batch = r :: (rest.filter isPending).take n := by
          simp only [batch, List.filter_cons_of_pos hp, List.take_succ_cons]
        have hone := asks_settleClaimed stamps answers settler
          (s := s.withSettlements (done ++ r' :: (Store.claimFirst now n rest).2)) rfl
          (by simpa [map_tradeId_claimFirst] using hnames r' hr') drawn asked
        rw [attemptAt_of_claim hclaim, settleCall_of_claim hclaim] at hone
        obtain ⟨y, hasks, hy⟩ := ih n (done ++ [attempt 0 r]) (hnames _ (tradeId_attemptAt ..))
          (drawn + 1) (asked + 1) (summary.count (attempt 0 r).status)
        rw [List.append_assoc, List.singleton_append] at hasks
        refine ⟨y, ?_, ?_⟩
        · rw [Store.claimFirst, hclaim, hbatch, List.map_cons, List.mapIdx_cons, List.foldl_cons,
            attemptAt_succ]
          exact hone.attempt.bind hasks
        · rw [hy, attemptFirst, if_pos hp, attemptAt_succ, List.append_assoc, List.singleton_append]
      · have hclaim : r.claim? now = none := r.claim?_of_not_isPending (Bool.eq_false_iff.2 hp)
        obtain ⟨y, hasks, hy⟩ := ih (n + 1) (done ++ [r]) (hnames r rfl) drawn asked summary
        rw [List.append_assoc, List.singleton_append] at hasks
        refine ⟨y, ?_, ?_⟩
        · simp only [batch, List.filter_cons_of_neg hp]
          rw [Store.claimFirst, hclaim]
          exact hasks
        · rw [hy, attemptFirst, if_neg hp, List.append_assoc, List.singleton_append]

/-- Every round is one of its batch. -/
theorem drains (stamps : ℕ → Stamp) (answers : LedgerAnswers) (settler : Settler)
    (hx : Queued x.store.settlements) :
    ∃ summary y, x.Drains stamps answers settler summary y ∧
      y.store.settlements =
        attemptFirst (attemptAt stamps answers settler.maxAttempts (x.drawn + 1) x.asked)
          settler.batchSize.toNat x.store.settlements := by
  let now := (stamps x.drawn).time
  let n := settler.batchSize.toNat
  have hclaim : (Task.store (.claimPending settler.batchSize)).Asks (handler stamps answers) x []
      (.ok (Store.claimFirst now n x.store.settlements).1)
      ⟨x.store.withSettlements (Store.claimFirst now n x.store.settlements).2, x.drawn + 1,
        x.asked⟩ := by
    refine ⟨ends_store ?_, rfl⟩
    simp only [Store.perform, Store.claimPending_eq]
    rfl
  obtain ⟨y, hasks, hy⟩ := asks_settleAll stamps answers settler now n [] x.store.settlements
    x.store hx.names_nodup (x.drawn + 1) x.asked .empty
  refine ⟨_, y, ⟨hclaim.bind hasks, ?_, rfl, ?_⟩, congrArg Store.settlements hy⟩
  · rw [hy, List.nil_append, SettlementRecord.attemptFirst_eq_map n hx.nodup]
    rfl
  · refine (DrainSummary.total_foldl_count _ _).trans ?_
    rw [List.length_mapIdx, List.length_take]
    exact Nat.zero_add _

theorem Rounds.queued {n : ℕ} (h : Rounds stamps answers settler x n y)
    (hx : Queued x.store.settlements) : Queued y.store.settlements := by
  induction h with
  | start => exact hx
  | @round n y z before hz ih =>
    obtain ⟨summary, y', hdrains, hy'⟩ := drains stamps answers settler ih
    rw [hz, show settler.drain.work.run (handler stamps answers) y = _ from hdrains.asks.ends, hy']
    exact ih.attemptFirst _ (tradeId_attemptAt _ _ _) fun i r hr =>
      (ih.countable r hr).recordAttempt _ _ _

/-- As long as there is a backlog, each round works off some of it. -/
theorem Rounds.backlog_le {n : ℕ} (h : Rounds stamps answers settler x n y)
    (hx : Queued x.store.settlements) (hsize : 0 < settler.batchSize.toNat) :
    backlog settler.maxAttempts y.store.settlements ≤
      backlog settler.maxAttempts x.store.settlements - n := by
  induction h with
  | start => exact le_rfl
  | @round n y z before hz ih =>
    have hy := before.queued hx
    obtain ⟨summary, y', hdrains, hy'⟩ := drains stamps answers settler hy
    rw [hz, show settler.drain.work.run (handler stamps answers) y = _ from hdrains.asks.ends, hy']
    have hless : ∀ i, ∀ r ∈ y.store.settlements, r.isPending = true →
        backlog settler.maxAttempts
          [r.attemptAt stamps answers settler.maxAttempts (y.drawn + 1) y.asked i] <
        backlog settler.maxAttempts [r] := fun i r hr hp =>
      SettlementRecord.backlog_recordAttempt_lt (hy.countable r hr) hp _ _ _
    have hround := SettlementRecord.backlog_attemptFirst_le settler.batchSize.toNat hless
    have hsome : backlog settler.maxAttempts y.store.settlements ≠ 0 →
        0 < (y.store.settlements.filter isPending).length := fun h =>
      List.length_pos_iff.2 (mt SettlementRecord.backlog_eq_zero_iff.2 h)
    omega

end Desk

theorem Settler.one_le_batchSize (maxAttempts : UInt32) (batchSize : UInt64) :
    1 ≤ (Settler.create maxAttempts batchSize).batchSize := by
  show (1 : UInt64) ≤ if batchSize ≤ 1 then 1 else batchSize
  split
  · exact UInt64.le_refl 1
  · rename_i h
    exact UInt64.le_of_lt (UInt64.not_le.1 h)

/-- A store is used in any way, and restarted in between, with fresh names for trades. Then a
settler goes round after round, and no trades are added. Whatever the ledger answers, each round
attempts the first pending records, as many as its size and no others. After as many rounds as there
are attempts left for all pending records together, one at least for each, none is pending. -/
theorem Settler.rounds_empty_queue (maxAttempts : UInt32) (batchSize : UInt64)
    {acts : List StoreAct} (hfresh : Store.empty.RunsFreshly acts) (stamps : ℕ → Stamp)
    (answers : LedgerAnswers) {n : ℕ} {y : Desk} :
    let settler := Settler.create maxAttempts batchSize
    let x : Desk := ⟨Store.empty.afterActs acts, 0, 0⟩
    x.Rounds stamps answers settler n y →
      (∃ summary z, y.Drains stamps answers settler summary z) ∧
      ((x.store.queue.map fun r => max 1 (settler.maxAttempts.toNat - r.attempts.toNat)).sum ≤ n →
        y.store.queue = []) := by
  intro settler x h
  have hx : Queued x.store.settlements := Store.queued_afterActs hfresh
  refine ⟨?_, fun hn => ?_⟩
  · obtain ⟨summary, z, hz, -⟩ := Desk.drains stamps answers settler (h.queued hx)
    exact ⟨summary, z, hz⟩
  · have hle := h.backlog_le hx
      (UInt64.le_iff_toNat_le.1 (Settler.one_le_batchSize maxAttempts batchSize))
    refine SettlementRecord.backlog_eq_zero_iff.1 (Nat.le_zero.1 (hle.trans ?_))
    exact (Nat.sub_eq_zero_of_le hn).le

/-- Two trades wait. The ledger refuses the first one twice, so the second one is settled in the
third round. -/
theorem Settler.rounds_empty_queue_boughtBelowLimit :
    let acts := Store.boughtBelowLimit.take 8
    let answers : LedgerAnswers := fun n c =>
      if n < 2 then LedgerAnswers.down n c else LedgerAnswers.granting n c
    let stamps (n : ℕ) : Stamp := ⟨.ofNat (10 + n), .epoch⟩
    let settler := Settler.create 2 0
    let x : Desk := ⟨Store.empty.afterActs acts, 0, 0⟩
    let next (x : Desk) : Desk := (settler.drain.work.run (Desk.handler stamps answers) x).2
    let y := next (next (next (next x)))
    Store.empty.RunsFreshly acts ∧ x.store.queue.length = 2 ∧
      x.Rounds stamps answers settler 4 y ∧
      (∃ summary z, y.Drains stamps answers settler summary z) ∧ y.store.queue = [] ∧
      y.store.settlements.map SettlementRecord.status = [.failed, .settled] := by
  intro acts answers stamps settler x next y
  have hfresh : Store.empty.RunsFreshly acts := by
    refine ⟨trivial, trivial, trivial, trivial, ?_, trivial, trivial, ?_, trivial⟩
    · show ∀ t ∈ _, _
      decide +kernel
    · show ∀ t ∈ _, _
      decide +kernel
  have hrounds : x.Rounds stamps answers settler 4 y :=
    Desk.Rounds.start.again.again.again.again
  have hempty := Settler.rounds_empty_queue 2 0 hfresh stamps answers hrounds
  exact ⟨hfresh, by decide +kernel, hrounds, hempty.1, hempty.2 (by decide +kernel),
    by decide +kernel⟩

end Bourse
