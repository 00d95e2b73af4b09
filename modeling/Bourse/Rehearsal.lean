import Bourse.Exchange
import Bourse.Fault

/-!
# Rehearsals

A rehearsal is an exchange under a plan of faults. The time that passes is counted instead of waited
for.

A call is first made, and then answered. Making it uses up a fault of the plan if one strikes. What
happens between the two is told with the steps of a piece of work.
-/

namespace Bourse

/-- An exchange under a plan of faults. -/
structure Rehearsal where
  exchange : Exchange
  faults : List Fault
  /-- The milliseconds that have passed. -/
  elapsed : Nat

namespace Rehearsal

/-- Makes a call. It may be struck by a fault. -/
def make (c : Call) (r : Rehearsal) : Option Fault × Rehearsal :=
  match c.kind? with
  | none => (none, r)
  | some kind =>
    let (struck, faults) := Fault.strike kind r.faults
    (struck, { r with faults })

def callStore (stamps : Nat → Stamp) (c : StoreCall) (r : Rehearsal) :
    Outcome StoreError c.Answer × Rehearsal :=
  let (reply, exchange) := Exchange.handler stamps (.store c) r.exchange
  (reply, { r with exchange })

def callLedger (c : LedgerCall) (r : Rehearsal) : Outcome LedgerError c.Answer × Rehearsal :=
  let (reply, ledger) := r.exchange.ledger.perform c
  (reply, { r with exchange := { r.exchange with ledger } })

/-- An answer that is lost on its way. The ledger's own error comes through. -/
def loseAnswer {α : Type} (e : LedgerError) : Outcome LedgerError α → Outcome LedgerError α
  | .ok (.ok _) => .ok (.error e)
  | reply => reply

/-- Answers a ledger call that was struck by a fault. A call that only stalled is carried out. -/
def answerStruck (f : Fault) (c : LedgerCall) (r : Rehearsal) :
    Outcome LedgerError c.Answer × Rehearsal :=
  match f.ledgerError? with
  | none => r.callLedger c
  | some e =>
    if f.after then
      let (reply, r) := r.callLedger c
      (loseAnswer e reply, r)
    else (.ok (.error e), r)

/-- Answers a call that was made, and perhaps struck by a fault. -/
def answer (stamps : Nat → Stamp) :
    Option Fault → (c : Call) → Rehearsal → c.Reply × Rehearsal
  | _, .stamp, r =>
    let (stamp, exchange) := Exchange.handler stamps .stamp r.exchange
    (stamp, { r with exchange })
  | none, .store c, r => r.callStore stamps c
  | some f, .store c, r => (f.storeOutcome c, r)
  | none, .ledger c, r => r.callLedger c
  | some f, .ledger c, r => r.answerStruck f c

end Rehearsal

end Bourse
