import Bourse.Task

/-!
# The exchange

The state of the exchange is a store and a ledger. New names and times come from outside, as a
sequence of stamps; each call that may need one uses the next.
-/

namespace Bourse

/-- A store, a ledger, and how many stamps are used. -/
structure Exchange where
  store : Store
  ledger : Ledger
  drawn : Nat

namespace Exchange

/-- An exchange on which nothing has happened. -/
def empty : Exchange := ⟨Store.empty, Ledger.empty, 0⟩

/-- Answers the calls of a task, with stamps taken from a sequence. -/
def handler (stamps : Nat → Stamp) : Work.Handler Exchange
  | .stamp, x => (stamps x.drawn, { x with drawn := x.drawn + 1 })
  | .store c, x =>
    let (reply, store) := x.store.perform (stamps x.drawn) c
    (reply, { x with store, drawn := x.drawn + 1 })
  | .ledger c, x =>
    let (reply, ledger) := x.ledger.perform c
    (reply, { x with ledger })

end Exchange

end Bourse
