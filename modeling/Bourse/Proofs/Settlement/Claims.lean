import Bourse.Proofs.Task
import Bourse.Settler
import Mathlib.Data.List.Nodup

/-!
# The claims of a settler

A settler *holds* a record from the moment a claim of it is answered until an attempt to settle it
is recorded or the claim is given back. As long as the store and the ledger do not overflow and a
held record can be given back, a settler calls the ledger only for a record that it holds, records
attempts and gives back only such records, and holds none when it is done, whatever it was answered.
-/

namespace Bourse

/-- The trade of a record. -/
abbrev SettlementRecord.tradeId (r : SettlementRecord) : TradeId := r.trade.id

/-- Records without that of one trade. -/
def without (id : TradeId) (held : List SettlementRecord) : List SettlementRecord :=
  held.filter fun r => r.tradeId ≠ id

/-- The records that a settler holds after a call. -/
def heldAfter : (c : Call) → c.Reply → List SettlementRecord → List SettlementRecord
  | .store (.claimSettlement _), .ok (.ok (some r)), held => held ++ [r]
  | .store (.claimPending _), .ok (.ok claimed), held => List.append held claimed
  | .store (.recordAttempt id _ _), .ok (.ok _), held => without id held
  | .store (.releaseClaim id), .ok (.ok _), held => without id held
  | _, _, held => held

/-- The replies that a settler relies on: nothing overflows, no trade is claimed twice at once, and
a record can be given back. -/
def Dependable : (c : Call) → c.Reply → Prop
  | .store (.claimPending _), reply =>
    ∃ claimed : List SettlementRecord, reply = .ok (.ok claimed) ∧
      (claimed.map SettlementRecord.tradeId).Nodup
  | .store (.releaseClaim _), reply => reply = .ok (.ok ())
  | .store _, reply => ∃ answer, reply = .ok answer
  | .ledger _, reply => ∃ answer, reply = .ok answer
  | .stamp, _ => True

/-- The calls that a settler makes, in view of what it holds. -/
inductive Dutiful (limit : UInt32) : Call → List SettlementRecord → Prop where
  | claimSettlement (id : TradeId) : Dutiful limit (.store (.claimSettlement id)) []
  | claimPending (size : UInt64) : Dutiful limit (.store (.claimPending size)) []
  | recordAttempt {id : TradeId} {failure : Option String} {held : List SettlementRecord}
    (holds : id ∈ held.map SettlementRecord.tradeId) :
    Dutiful limit (.store (.recordAttempt id failure limit)) held
  | releaseClaim {id : TradeId} {held : List SettlementRecord}
    (holds : id ∈ held.map SettlementRecord.tradeId) :
    Dutiful limit (.store (.releaseClaim id)) held
  | settle {r : SettlementRecord} {held : List SettlementRecord} (holds : r ∈ held) :
    Dutiful limit (.ledger (.settle r.trade r.buyerRelease)) held

/-- How calls are answered, and what is held afterwards. -/
def heldAnswers : Work.Answers (List SettlementRecord) :=
  fun c held reply held' => Dependable c reply ∧ held' = heldAfter c reply held

/-- From now on all calls of a piece of work are dutiful, and nothing is held in the end. -/
def KeepsClaims (limit : UInt32) (work : Work Unit) (held : List SettlementRecord) : Prop :=
  work.wp heldAnswers (fun _ _ => True) (Dutiful limit) (fun _ held => held = []) held

section Without

variable {id : TradeId} {r : SettlementRecord} {held rest : List SettlementRecord}

theorem mem_without_iff : r ∈ without id held ↔ r ∈ held ∧ r.tradeId ≠ id := by
  rw [without, List.mem_filter, decide_eq_true_eq]

theorem without_cons (h : ((r :: rest).map SettlementRecord.tradeId).Nodup) :
    without r.tradeId (r :: rest) = rest := by
  obtain ⟨hr, -⟩ := List.nodup_cons.1 h
  rw [without, List.filter_cons_of_neg (by simp), List.filter_eq_self]
  intro q hq
  rw [decide_eq_true_eq]
  intro e
  exact hr (e ▸ List.mem_map_of_mem hq)

end Without

namespace Settler

variable {ε α : Type} {limit : UInt32} {batchSize : UInt64} {r : SettlementRecord}
  {held rest records : List SettlementRecord}

/-- What a task of a settler leads to, in terms of what it holds. -/
abbrev holding (limit : UInt32) (t : Task ε α)
    (Q : Outcome ε α → List SettlementRecord → Prop) (held : List SettlementRecord) : Prop :=
  t.wp heldAnswers (fun _ _ => True) (Dutiful limit) Q held

theorem holding_giveBack {id : TradeId} (hid : id ∈ held.map SettlementRecord.tradeId) :
    holding limit (giveBack id : Task ε Unit)
      (fun outcome held' => outcome = .ok (.ok ()) ∧ held' = without id held) held := by
  refine Task.wp_bind.2 (Task.wp_attempt.2 (Task.wp_store.2 fun _ => ⟨.releaseClaim hid, ?_⟩))
  rintro reply held' ⟨rfl, rfl⟩
  exact ⟨rfl, rfl⟩

theorem holding_giveBackAll (h : (records.map SettlementRecord.tradeId).Nodup) :
    holding limit (giveBackAll records : Task ε Unit)
      (fun outcome held' => outcome = .ok (.ok ()) ∧ held' = []) records := by
  induction records with
  | nil => exact ⟨rfl, rfl⟩
  | cons r rest ih =>
    refine Task.wp_bind.2 (Task.wp_mono (holding_giveBack (by simp)) ?_)
    rintro outcome held' ⟨rfl, rfl⟩
    show holding limit (giveBackAll rest) _ _
    rw [without_cons h]
    exact ih (List.nodup_cons.1 h).2

/-- However the call to the ledger and its recording end, the claim does. -/
theorem holding_settleClaimed (h : ((r :: rest).map SettlementRecord.tradeId).Nodup) :
    holding limit (settleClaimed ⟨limit, batchSize⟩ r)
      (fun outcome held' => (∃ result, outcome = .ok result) ∧ held' = rest) (r :: rest) := by
  have hmem : r.tradeId ∈ (r :: rest).map SettlementRecord.tradeId := List.mem_cons_self
  refine Task.wp_bind.2 (Task.wp_attempt.2 (Task.wp_ledger.2 fun _ =>
    ⟨.settle List.mem_cons_self, ?_⟩))
  rintro reply held' ⟨⟨answer, rfl⟩, rfl⟩
  refine Task.wp_bind.2 (Task.wp_attempt.2 (Task.wp_store.2 fun _ => ⟨.recordAttempt hmem, ?_⟩))
  rintro reply held' ⟨⟨recorded, rfl⟩, rfl⟩
  cases recorded with
  | ok r' => exact ⟨⟨_, rfl⟩, without_cons h⟩
  | error e =>
    refine Task.wp_bind.2 (Task.wp_mono (holding_giveBack hmem) ?_)
    rintro outcome held' ⟨rfl, rfl⟩
    exact ⟨⟨_, rfl⟩, without_cons h⟩

theorem holding_settle (id : TradeId) :
    holding limit (settle ⟨limit, batchSize⟩ id) (fun _ held' => held' = []) [] := by
  refine Task.wp_bind.2 (Task.wp_store.2 fun _ => ⟨.claimSettlement id, ?_⟩)
  rintro reply held' ⟨⟨answer, rfl⟩, rfl⟩
  cases answer with
  | error e => rfl
  | ok found =>
    cases found with
    | none => rfl
    | some r =>
      refine Task.wp_bind.2 (Task.wp_mono (holding_settleClaimed (by simp)) ?_)
      rintro outcome held' ⟨⟨result, rfl⟩, rfl⟩
      cases result <;> rfl

theorem holding_settleAll {summary : DrainSummary}
    (h : (records.map SettlementRecord.tradeId).Nodup) :
    holding limit (settleAll ⟨limit, batchSize⟩ records summary) (fun _ held' => held' = [])
      records := by
  induction records generalizing summary with
  | nil => rfl
  | cons r rest ih =>
    have hrest := (List.nodup_cons.1 h).2
    refine Task.wp_bind.2 (Task.wp_attempt.2 (Task.wp_mono (holding_settleClaimed h) ?_))
    rintro outcome held' ⟨⟨result, rfl⟩, rfl⟩
    cases result with
    | ok r' => exact ih hrest
    | error e =>
      refine Task.wp_bind.2 (Task.wp_mono (holding_giveBackAll hrest) ?_)
      rintro outcome held'' ⟨rfl, rfl⟩
      rfl

theorem holding_drain :
    holding limit (drain ⟨limit, batchSize⟩) (fun _ held' => held' = []) [] := by
  refine Task.wp_bind.2 (Task.wp_store.2 fun _ => ⟨.claimPending batchSize, ?_⟩)
  rintro reply held' ⟨⟨claimed, rfl, hnodup⟩, rfl⟩
  exact holding_settleAll hnodup

theorem keepsClaims_settle (limit : UInt32) (batchSize : UInt64) (id : TradeId) :
    KeepsClaims limit (Task.ignoring (settle ⟨limit, batchSize⟩ id)) [] :=
  Work.wp_bind.2 (holding_settle id)

theorem keepsClaims_drain (limit : UInt32) (batchSize : UInt64) :
    KeepsClaims limit (Task.ignoring (drain ⟨limit, batchSize⟩)) [] :=
  Work.wp_bind.2 holding_drain

end Settler

end Bourse
