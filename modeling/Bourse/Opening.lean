import Bourse.Config
import Bourse.Engine
import Bourse.Exchange

/-!
# Opening the exchange

What the settings say about the exchange when it opens: how its engine matches, and what the ledger
holds. Orders and trades come from the snapshot of an earlier day, if there is one.
-/

namespace Bourse

/-- The engine that the settings describe. -/
def Engine.ofConfig (config : Config) : Engine where
  fees := config.fees
  settler := .create config.settlementMaxAttempts config.settlementBatch
  maxIterations := config.maxMatchIterations
  allowSelfTrade := config.allowSelfTrade

/-- Deposits opening balances, one after the other. -/
def Ledger.seeded (l : Ledger) : List SeedBalance → Checked Ledger
  | [] => .ok l
  | seed :: rest =>
    match l.deposit seed.userId seed.asset seed.amount with
    | (.ok (), l) => l.seeded rest
    | (.error e, _) => .error e

/-- The store of a snapshot, or an empty one. -/
def Store.restored : Option Snapshot → Store
  | some s => .ofSnapshot s
  | none => .empty

/-- The exchange as it opens with the settings and a snapshot. -/
def Exchange.opening (config : Config) (snapshot : Option Snapshot) : Checked Exchange := do
  let ledger ← Ledger.empty.seeded config.seedBalances
  return ⟨.restored snapshot, ledger, 0⟩

end Bourse
