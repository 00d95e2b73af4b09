import Bourse.Task

/-!
# Settling trades

A settler takes claimed records to the ledger. It claims the record of one trade, or the first few
records in the queue, calls the ledger for each and records how the call ended. If that cannot be
recorded, the claim is given back, and so are the claims that are not worked off yet.
-/

namespace Bourse

/-- How often a settlement is attempted, and how many records are worked off at once. -/
structure Settler where
  /-- The number of attempts after which a settlement is given up. -/
  maxAttempts : UInt32
  /-- The most records of one round. -/
  batchSize : UInt64

/-- How the records of one round ended. -/
structure DrainSummary where
  /-- How many are settled. -/
  settled : Nat
  /-- How many went back to the queue. -/
  retrying : Nat
  /-- How many are given up. -/
  failed : Nat
  deriving DecidableEq

namespace DrainSummary

/-- The summary of a round without records. -/
def empty : DrainSummary := ⟨0, 0, 0⟩

/-- The summary after one more record, which ended in the given status. -/
def count (s : DrainSummary) : SettlementStatus → DrainSummary
  | .settled => { s with settled := s.settled + 1 }
  | .failed => { s with failed := s.failed + 1 }
  | .pending | .inFlight => { s with retrying := s.retrying + 1 }

end DrainSummary

namespace Settler

/-- A settler that makes at least one attempt and takes at least one record at a time. -/
def create (maxAttempts : UInt32) (batchSize : UInt64) : Settler :=
  ⟨max maxAttempts 1, max batchSize 1⟩

/-- Gives a claim back, if the store can do it. -/
def giveBack {ε : Type} (id : TradeId) : Task ε Unit := do
  let _ ← (Task.store (.releaseClaim id)).attempt

/-- Gives back the claims of several records. -/
def giveBackAll {ε : Type} : List SettlementRecord → Task ε Unit
  | [] => return
  | r :: rest => do
    giveBack r.trade.id
    giveBackAll rest

/-- The words in which a ledger call failed. -/
def failure? {α : Type} : Except LedgerError α → Option String
  | .ok _ => none
  | .error e => some e.message

/-- Calls the ledger for a claimed record and records how the call ended. -/
def settleClaimed (s : Settler) (r : SettlementRecord) : Task StoreError SettlementRecord := do
  let answer ← (Task.ledger (.settle r.trade r.buyerRelease)).attempt
  match ← (Task.store (.recordAttempt r.trade.id (failure? answer) s.maxAttempts)).attempt with
  | .ok r => return r
  | .error e =>
    giveBack r.trade.id
    throw e

/-- Settles one trade, unless its record is held by another or finished. -/
def settle (s : Settler) (id : TradeId) : Task StoreError (Option SettlementStatus) := do
  let claimed : Option SettlementRecord ← Task.store (.claimSettlement id)
  match claimed with
  | none => return none
  | some r => return some (← s.settleClaimed r).status

/-- Works claimed records off one by one. -/
def settleAll (s : Settler) : List SettlementRecord → DrainSummary → Task StoreError DrainSummary
  | [], summary => return summary
  | r :: rest, summary => do
    match ← (s.settleClaimed r).attempt with
    | .ok r => s.settleAll rest (summary.count r.status)
    | .error e =>
      giveBackAll rest
      throw e

/-- Works off the first records in the queue. -/
def drain (s : Settler) : Task StoreError DrainSummary := do
  let claimed : List SettlementRecord ← Task.store (.claimPending s.batchSize)
  s.settleAll claimed .empty

end Settler

end Bourse
