import Bourse.Settler

/-!
# Matching

The engine brings the book to a state in which nothing crosses. For one market it takes the best
pair, matches it, has the trade settled, and starts over from a fresh view of the book. A new order
is matched in the same way against its best counterparties. Each run is bounded by a number of
matches and stops at the first conflict; what is left waits for the next run.

A pass matches all markets, side by side: between two calls of one run, the other runs make theirs.
A failed settlement does not undo a match, and an overflow in one market does not keep the others
of a pass from being matched.
-/

namespace Bourse

/-- How the book is matched. -/
structure Engine where
  /-- The fee rates of the trades it makes. -/
  fees : FeeSchedule
  /-- How it settles them. -/
  settler : Settler
  /-- The most matches of one run. -/
  maxIterations : UInt64
  /-- Whether two orders of one user may trade with each other. -/
  allowSelfTrade : Bool

/-- Why the run of a market ended. -/
inductive StopReason where
  /-- Nothing crosses any more. -/
  | exhausted
  /-- The pair did not hold any more. -/
  | conflict
  /-- The most matches of one run are made. -/
  | iterationCap
  /-- A call to the store failed. -/
  | storeError
  deriving DecidableEq

/-- The reason as it is written. -/
def StopReason.name : StopReason → String
  | .exhausted => "Exhausted"
  | .conflict => "Conflict"
  | .iterationCap => "IterationCap"
  | .storeError => "StoreError"

/-- The trades of one run and why it ended. -/
structure MarketRun where
  /-- The market that was matched. -/
  market : Market
  /-- The trades in the order in which they were made. -/
  trades : List Trade
  /-- Why the run ended. -/
  stop : StopReason

/-- The totals of one pass over all markets. -/
structure PassSummary where
  /-- How many markets had resting orders. -/
  markets : Nat
  /-- How many trades were made. -/
  trades : Nat
  /-- How many runs ended in a conflict. -/
  conflicts : Nat
  deriving DecidableEq

/-- Counts the run of a market. A run that ended in an overflow is not counted. -/
def PassSummary.count (s : PassSummary) : Checked MarketRun → PassSummary
  | .ok run =>
    { s with
      trades := s.trades + run.trades.length
      conflicts := if run.stop = .conflict then s.conflicts + 1 else s.conflicts }
  | .error _ => s

namespace Engine

/-- The resting orders of one side in the order in which they are matched. -/
def sideOf (market : Market) (side : Side) : Task StoreError (List Order) := do
  let orders : List Order ← Task.store (.restingOrders market side)
  return sortByPriority side (orders.filter Order.isResting)

/-- The top of the book of a market, as the store has it now. -/
def bestBidAsk (market : Market) : Task StoreError BestBidAsk := do
  let bids ← sideOf market .buy
  let asks ← sideOf market .sell
  Task.ofChecked (BestBidAsk.ofSides market bids asks)

/-- The pair of a market that trades next. -/
def bestCandidate (e : Engine) (market : Market) : Task StoreError (Option MatchCandidate) := do
  let buys ← sideOf market .buy
  if buys.isEmpty then return none
  let sells ← sideOf market .sell
  return bestMatch e.allowSelfTrade buys sells

/-- Matches a pair and has its trade settled. There is no trade if the pair does not hold any
more. -/
def execute (e : Engine) (c : MatchCandidate) : Task StoreError (Option Trade) := do
  let outcome : MatchOutcome ←
    Task.store (.commitMatch c.makerOrderId c.takerOrderId c.quantity e.fees)
  match outcome with
  | .executed trade => do
    let _ ← (e.settler.settle trade.id).attempt
    return some trade
  | .conflict _ => return none

/-- Matches a market at most so many times. -/
def matchRepeatedly {ε : Type} (e : Engine) (market : Market) :
    Nat → Task ε (List Trade × StopReason)
  | 0 => return ([], .iterationCap)
  | n + 1 => do
    match ← (e.bestCandidate market).attempt with
    | .error _ => return ([], .storeError)
    | .ok none => return ([], .exhausted)
    | .ok (some c) =>
      match ← (e.execute c).attempt with
      | .error _ => return ([], .storeError)
      | .ok none => return ([], .conflict)
      | .ok (some trade) => do
        let (trades, stop) ← e.matchRepeatedly market n
        return (trade :: trades, stop)

/-- Matches a market until nothing crosses. -/
def matchMarket {ε : Type} (e : Engine) (market : Market) : Task ε MarketRun := do
  let (trades, stop) ← e.matchRepeatedly market e.maxIterations.toNat
  return ⟨market, trades, stop⟩

/-- The run of a market as a piece of work of its own. -/
def marketWork (e : Engine) (market : Market) : Work (Checked MarketRun) := do
  match ← (e.matchMarket market : Task Empty MarketRun).work with
  | .ok (.ok run) => return .ok run
  | .ok (.error never) => nomatch never
  | .error overflow => return .error overflow

/-- The best partner of a resting order, as the book stands. -/
def incomingCandidate (e : Engine) (id : OrderId) : Task StoreError (Option MatchCandidate) := do
  let found : Option Order ← Task.store (.getOrder id)
  match found with
  | none => return none
  | some incoming =>
    if incoming.isResting then
      let opposite ← sideOf incoming.market incoming.side.opposite
      return counterparty e.allowSelfTrade incoming opposite
    else return none

/-- Matches an order with its best partners, at most so many times. -/
def matchIncomingRepeatedly (e : Engine) (id : OrderId) : Nat → Task StoreError (List Trade)
  | 0 => return []
  | n + 1 => do
    match ← e.incomingCandidate id with
    | none => return []
    | some c =>
      match ← e.execute c with
      | none => return []
      | some trade => return trade :: (← e.matchIncomingRepeatedly id n)

/-- Matches an order that has just come to the book. What is left of it rests there. -/
def matchIncoming (e : Engine) (id : OrderId) : Task StoreError (List Trade) :=
  e.matchIncomingRepeatedly id e.maxIterations.toNat

/-- Matches markets side by side and counts their runs. The turns say whose call comes next; without
turns the markets are matched one after the other. -/
def matchMarkets {ε : Type} (e : Engine) (turns : List Nat) (markets : List Market) :
    Task ε PassSummary := do
  let runs ← Task.ofSure (Work.sideBySide turns (markets.map e.marketWork))
  return runs.foldl PassSummary.count ⟨markets.length, 0, 0⟩

/-- A pass matches all markets with resting orders. -/
def runPass (e : Engine) (turns : List Nat) : Task StoreError PassSummary := do
  let markets : List Market ← Task.store .activeMarkets
  e.matchMarkets turns markets

/-- What is done at regular intervals: a pass, and then a round of settlements. Neither depends on
the other's success. -/
def tick {ε : Type} (e : Engine) (turns : List Nat) : Task ε Unit := do
  let _ ← (e.runPass turns).attempt
  let _ ← e.settler.drain.attempt

end Engine

end Bourse
