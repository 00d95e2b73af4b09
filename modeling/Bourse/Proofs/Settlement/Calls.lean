import Bourse.Proofs.Task
import Bourse.Settler

/-!
# The calls of a settler

Whatever it is answered, a settler only claims records, gives them back, takes them to the ledger and
records how that ended.
-/

namespace Bourse

/-- A call that a settler makes. -/
def Call.OfSettler : Call → Prop
  | .store (.claimSettlement _) => True
  | .store (.claimPending _) => True
  | .store (.recordAttempt _ _ _) => True
  | .store (.releaseClaim _) => True
  | .ledger (.settle _ _) => True
  | _ => False

namespace Settler

variable {ε : Type}

theorem only_giveBack (id : TradeId) : (giveBack id : Task ε Unit).Only Call.OfSettler :=
  (Task.Only.store (c := .releaseClaim id) trivial).attempt.bind fun _ => .pure

theorem only_giveBackAll (records : List SettlementRecord) :
    (giveBackAll records : Task ε Unit).Only Call.OfSettler := by
  induction records with
  | nil => exact .pure
  | cons r rest ih => exact (only_giveBack r.trade.id).bind fun _ => ih

theorem only_settleClaimed (s : Settler) (r : SettlementRecord) :
    (s.settleClaimed r).Only Call.OfSettler := by
  have hledger : (Task.ledger (.settle r.trade r.buyerRelease)).Only Call.OfSettler :=
    .ledger trivial
  refine hledger.attempt.bind fun answer => ?_
  have hrecord : (Task.store (.recordAttempt r.trade.id (failure? answer) s.maxAttempts)).Only
      Call.OfSettler := .store trivial
  refine hrecord.attempt.bind fun recorded => ?_
  cases recorded with
  | ok r => exact .pure
  | error e => exact (only_giveBack r.trade.id).bind fun _ => .throw

theorem only_settle (s : Settler) (id : TradeId) : (s.settle id).Only Call.OfSettler := by
  have hclaim : (Task.store (.claimSettlement id)).Only Call.OfSettler := .store trivial
  refine hclaim.bind fun claimed => ?_
  cases claimed with
  | none => exact .pure
  | some r => exact (s.only_settleClaimed r).bind fun _ => .pure

theorem only_settleAll (s : Settler) (records : List SettlementRecord) (summary : DrainSummary) :
    (s.settleAll records summary).Only Call.OfSettler := by
  induction records generalizing summary with
  | nil => exact .pure
  | cons r rest ih =>
    refine (s.only_settleClaimed r).attempt.bind fun result => ?_
    cases result with
    | ok r => exact ih _
    | error e => exact (only_giveBackAll rest).bind fun _ => .throw

theorem only_drain (s : Settler) : s.drain.Only Call.OfSettler := by
  have hclaim : (Task.store (.claimPending s.batchSize)).Only Call.OfSettler := .store trivial
  exact hclaim.bind fun claimed => s.only_settleAll claimed .empty

end Settler

end Bourse
