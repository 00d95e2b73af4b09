import Bourse.Text.Split
import Bourse.Text.Whole
import Bourse.Trade

/-!
# Configuration

The exchange is configured by variables of its environment. Each is optional, and one that is
missing or unusable leaves its default. Numbers are trimmed before they are read. Every
configuration that comes out is usable: the intervals and bounds are above zero, and fee rates are
at least zero and below one.

Opening balances are typed as entries `user:asset:amount` with commas between them. An entry that
cannot be read, or whose amount is not above zero, is left out; the others stand.
-/

namespace Bourse

/-- An opening balance. -/
structure SeedBalance where
  userId : UserId
  asset : String
  /-- The amount that is available at the opening. -/
  amount : Decimal
  deriving DecidableEq

namespace SeedBalance

/-- The part in front of a colon, and what stands behind it. -/
def field? (cs : List Char) : Option (List Char × List Char) :=
  match Text.splitOnce ':' cs with
  | (front, some back) => some (front, back)
  | (_, none) => none

/-- Reads an entry with its three parts, each of them trimmed. -/
def ofEntry? (entry : List Char) : Option SeedBalance := do
  let (user, rest) ← field? (Text.trim entry)
  let (asset, amount) ← field? rest
  let user ← Text.whole? UInt64.size (Text.trim user)
  let asset := (Text.trim asset).map capital
  let amount ← Decimal.ofText? (String.ofList (Text.trim amount))
  if asset.isEmpty || !amount.isPos then none
  else some ⟨⟨UInt64.ofNat user⟩, String.ofList asset, amount⟩

/-- Reads the entries that can be read, in their order. -/
def parse (s : String) : List SeedBalance :=
  (Text.split ',' s.toList).filterMap ofEntry?

/-- The entry that is read as an opening balance. -/
def toEntry (b : SeedBalance) : String :=
  b.userId.toText ++ ":" ++ b.asset ++ ":" ++ b.amount.toText

end SeedBalance

/-- All settings of the exchange. Times are in milliseconds. -/
structure Config where
  /-- The time between two passes over all markets. -/
  matchInterval : UInt64
  /-- The most matches of one run of a market. -/
  maxMatchIterations : UInt64
  /-- The fee rates of new trades. -/
  fees : FeeSchedule
  /-- Whether two orders of one user may trade with each other. -/
  allowSelfTrade : Bool
  /-- The time after which a call to the ledger is given up. -/
  ledgerTimeout : UInt64
  /-- The number of attempts after which a settlement is given up. -/
  settlementMaxAttempts : UInt32
  /-- The most settlement records that are worked off at once. -/
  settlementBatch : UInt64
  /-- The port at which requests come in. -/
  httpPort : UInt16
  /-- Where snapshots are kept, if they are. -/
  snapshotPath : Option String
  /-- What the ledger holds at the opening. -/
  seedBalances : List SeedBalance

namespace Config

/-- The settings of an empty environment. -/
def standard : Config where
  matchInterval := 1000
  maxMatchIterations := 1000
  fees := .standard
  allowSelfTrade := false
  ledgerTimeout := 5000
  settlementMaxAttempts := 5
  settlementBatch := 100
  httpPort := 8080
  snapshotPath := none
  seedBalances := []

/-- A number above zero and below the bound. -/
def positive? (bound : Nat) (raw : Option String) : Option Nat := do
  let n ← Text.whole? bound (Text.trim (← raw).toList)
  if 0 < n then some n else none

/-- A fraction: at least zero, and below one. -/
def rate? (raw : Option String) : Option Decimal := do
  let rate ← Decimal.ofText? (Text.trimmed (← raw))
  if !rate.isNeg && rate < Decimal.one then some rate else none

/-- A text with its ASCII capitals as small letters. -/
def smallLetters (s : String) : String :=
  String.ofList (s.toList.map Char.toLower)

/-- Whether a setting is switched on. -/
def flag (raw : String) : Bool :=
  raw == "1" || smallLetters raw == "true"

/-- A text that is not blank, trimmed. -/
def path? (raw : Option String) : Option String :=
  (raw.map Text.trimmed).filter fun path => !path.isEmpty

/-- The names of the variables that hold settings. -/
def variableNames : List String :=
  ["MATCH_INTERVAL_MS", "MAX_MATCH_ITERATIONS", "MAKER_FEE_RATE", "TAKER_FEE_RATE",
    "ALLOW_SELF_TRADE", "LEDGER_TIMEOUT_MS", "SETTLEMENT_MAX_ATTEMPTS", "SETTLEMENT_BATCH", "PORT",
    "SNAPSHOT_PATH", "SEED_BALANCES"]

/-- The settings of an environment. A variable that is missing or unusable leaves its default. -/
def ofLookup (lookup : String → Option String) : Config where
  matchInterval := ((positive? UInt64.size (lookup "MATCH_INTERVAL_MS")).map UInt64.ofNat).getD
    standard.matchInterval
  maxMatchIterations := ((positive? UInt64.size (lookup "MAX_MATCH_ITERATIONS")).map
    UInt64.ofNat).getD standard.maxMatchIterations
  fees := ⟨
    (rate? (lookup "MAKER_FEE_RATE")).getD standard.fees.makerRate,
    (rate? (lookup "TAKER_FEE_RATE")).getD standard.fees.takerRate⟩
  allowSelfTrade := ((lookup "ALLOW_SELF_TRADE").map flag).getD standard.allowSelfTrade
  ledgerTimeout := ((positive? UInt64.size (lookup "LEDGER_TIMEOUT_MS")).map UInt64.ofNat).getD
    standard.ledgerTimeout
  settlementMaxAttempts := ((positive? UInt32.size (lookup "SETTLEMENT_MAX_ATTEMPTS")).map
    UInt32.ofNat).getD standard.settlementMaxAttempts
  settlementBatch := ((positive? UInt64.size (lookup "SETTLEMENT_BATCH")).map UInt64.ofNat).getD
    standard.settlementBatch
  httpPort := (((lookup "PORT").bind fun raw => Text.whole? UInt16.size (Text.trim raw.toList)).map
    UInt16.ofNat).getD standard.httpPort
  snapshotPath := path? (lookup "SNAPSHOT_PATH")
  seedBalances := ((lookup "SEED_BALANCES").map SeedBalance.parse).getD []

end Config

end Bourse
