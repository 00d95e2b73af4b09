import Bourse.Proofs.Reserve.Duties
import Bourse.Settler

/-!
# Settling keeps the balance

Every attempt to settle a claimed record succeeds, because what is due for its trade is held locked.
So no attempt fails, no record is ever given up, and a claimed record is settled in the ledger and
in the store by one and the same attempt.
-/

namespace Bourse.Setting

variable {w : Setting} {k : Duty} {r : SettlementRecord}

/-- One attempt settles a claimed record. -/
theorem runs_settleClaimed (s : Settler) (hr : r.terms ∈ k.records) (hk : k.IsFree) :
    (s.settleClaimed r).wp w.learns (fun _ _ => True) w.Proper
      (fun result k' => (∃ q, result = .ok (.ok q)) ∧ k'.IsFree ∧ k'.records = k.records) k := by
  refine Task.wp_bind.2 (Task.wp_attempt.2 (Task.wp_ledger.2 fun _ => ⟨.settle hr hk, ?_⟩))
  rintro reply k₁ ⟨rfl, rfl⟩
  refine Task.wp_bind.2 (Task.wp_attempt.2 (Task.wp_store.2 fun _ => ⟨.recordAttempt rfl, ?_⟩))
  rintro reply k₂ ⟨⟨q, rfl⟩, rfl⟩
  exact Task.wp_pure.2 ⟨⟨q, rfl⟩, rfl, rfl⟩

theorem runs_settle (w : Setting) (s : Settler) (id : TradeId) :
    w.Runs (s.settle id) fun _ => True := by
  intro k hk
  refine Task.wp_bind.2 (Task.wp_store.2 fun _ => ⟨.claimSettlement id k, ?_⟩)
  rintro (overflow | error | found) k₁ ⟨hk₁, hfound⟩
  · exact ⟨hk₁.trans hk, fun _ _ => trivial⟩
  · exact ⟨hk₁.trans hk, fun _ _ => trivial⟩
  · cases found with
    | none => exact Task.wp_pure.2 ⟨hk₁.trans hk, fun _ _ => trivial⟩
    | some r =>
      refine Task.wp_bind.2 (Task.wp_mono
        (runs_settleClaimed s (hfound r rfl) (hk₁.trans hk)) ?_)
      rintro result k₂ ⟨⟨q, rfl⟩, hk₂, -⟩
      exact Task.wp_pure.2 ⟨hk₂, fun _ _ => trivial⟩

/-- Claimed records are settled one by one. -/
theorem runs_settleAll (s : Settler) {rest : List SettlementRecord} {summary : DrainSummary}
    (hrest : ∀ r ∈ rest, r.terms ∈ k.records) (hk : k.IsFree) :
    (s.settleAll rest summary).wp w.learns (fun _ _ => True) w.Proper (fun _ => Duty.IsFree) k := by
  induction rest generalizing k summary with
  | nil => exact Task.wp_pure.2 hk
  | cons r rest ih =>
    refine Task.wp_bind.2 (Task.wp_attempt.2 (Task.wp_mono
      (runs_settleClaimed s (hrest r List.mem_cons_self) hk) ?_))
    rintro result k₁ ⟨⟨q, rfl⟩, hk₁, hsame⟩
    refine ih (fun r' hr' => ?_) hk₁
    rw [hsame]
    exact hrest r' (List.mem_cons_of_mem r hr')

theorem runs_drain (w : Setting) (s : Settler) : w.Runs s.drain fun _ => True := by
  intro k hk
  refine Task.wp_bind.2 (Task.wp_store.2 fun _ => ⟨.claimPending s.batchSize k, ?_⟩)
  rintro (overflow | error | claimed) k₁ ⟨hk₁, hclaimed⟩
  · exact ⟨hk₁.trans hk, fun _ _ => trivial⟩
  · exact ⟨hk₁.trans hk, fun _ _ => trivial⟩
  · exact Task.wp_mono (runs_settleAll s (hclaimed claimed rfl) (hk₁.trans hk))
      fun _ _ hk₂ => ⟨hk₂, fun _ _ => trivial⟩

end Bourse.Setting
