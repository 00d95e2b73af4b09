import Bourse.Trade

/-!
# Settlement records

Each trade has a record that says how far its settlement in the ledger has come. A worker claims a
pending record before it calls the ledger, so that only one worker settles a trade at a time, and
then records how the attempt ended. A failed attempt returns the record to the queue until the
number of attempts reaches its limit.

A buyer has reserved funds at the own limit. Where the trade's price is better, the difference is
released by the settlement.
-/

namespace Bourse

/-- How far a settlement has come. -/
inductive SettlementStatus where
  /-- It waits in the queue. -/
  | pending
  /-- A worker holds the record. -/
  | inFlight
  /-- The ledger has made its payments. -/
  | settled
  /-- Given up after too many attempts. -/
  | failed
  deriving DecidableEq

namespace SettlementStatus

def name : SettlementStatus → String
  | .pending => "Pending"
  | .inFlight => "InFlight"
  | .settled => "Settled"
  | .failed => "Failed"

def names : List (String × SettlementStatus) :=
  [("Pending", .pending), ("InFlight", .inFlight), ("Settled", .settled), ("Failed", .failed)]

/-- A finished record never changes again. -/
def isFinished : SettlementStatus → Bool
  | .settled | .failed => true
  | _ => false

end SettlementStatus

/-- How far the settlement of a trade has come. -/
structure SettlementRecord where
  /-- The trade. -/
  trade : Trade
  /-- What the buyer reserved above the price of the trade. -/
  buyerRelease : Decimal
  /-- Where the record stands. -/
  status : SettlementStatus
  /-- How many attempts have ended. -/
  attempts : UInt32
  /-- Why the last attempt failed, if it did. -/
  lastError : Option String
  /-- When the trade was made. -/
  createdAt : Instant
  /-- When the record was last claimed, or an attempt ended. -/
  updatedAt : Option Instant
  deriving DecidableEq

namespace SettlementRecord

/-- The record of a new trade, whose buyer had the given limit. -/
def create (now : Instant) (trade : Trade) (buyLimit : Decimal) : Checked SettlementRecord := do
  let improvement := (← buyLimit.sub trade.price).max Decimal.zero
  return {
    trade := trade
    buyerRelease := ← improvement.mul trade.quantity
    status := .pending
    attempts := 0
    lastError := none
    createdAt := now
    updatedAt := none }

/-- Takes a pending record out of the queue. -/
def claim? (r : SettlementRecord) (now : Instant) : Option SettlementRecord :=
  if r.status = .pending then some { r with status := .inFlight, updatedAt := some now } else none

/-- The record after it is claimed. A record that is not pending stays as it is. -/
def claimed (r : SettlementRecord) (now : Instant) : SettlementRecord :=
  (r.claim? now).getD r

/-- Returns a claimed record to the queue. -/
def releaseClaim (r : SettlementRecord) : SettlementRecord :=
  if r.status = .inFlight then { r with status := .pending } else r

/-- Records how an attempt ended: with success, or with an error in words. -/
def recordAttempt (r : SettlementRecord) (failure : Option String) (maxAttempts : UInt32)
    (now : Instant) : SettlementRecord :=
  if r.status.isFinished then r
  else
    let attempts := r.attempts + 1
    let status := match failure with
      | none => .settled
      | some _ => if maxAttempts ≤ attempts then .failed else .pending
    { r with status, attempts, lastError := failure, updatedAt := some now }

/-! A record stays the record of its trade. -/

theorem trade_of_claim? {r r' : SettlementRecord} {now : Instant} (h : r.claim? now = some r') :
    r'.trade = r.trade := by
  unfold claim? at h
  split at h
  · cases h
    rfl
  · cases h

theorem trade_claimed (r : SettlementRecord) (now : Instant) : (r.claimed now).trade = r.trade := by
  unfold claimed
  cases h : r.claim? now with
  | none => rfl
  | some r' => exact trade_of_claim? h

theorem trade_releaseClaim (r : SettlementRecord) : r.releaseClaim.trade = r.trade := by
  unfold releaseClaim
  split <;> rfl

theorem trade_recordAttempt (r : SettlementRecord) (failure : Option String) (maxAttempts : UInt32)
    (now : Instant) : (r.recordAttempt failure maxAttempts now).trade = r.trade := by
  unfold recordAttempt
  split <;> rfl

end SettlementRecord

end Bourse
