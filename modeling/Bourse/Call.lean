import Bourse.Ledger
import Bourse.Store

/-!
# Calls

The work of the exchange consists of single calls to the store and to the ledger. Each call is one
step that nothing else can interrupt; between two calls of one piece of work, calls of others may
come. A call is a value here, so that a piece of work can be run against the plain store and
ledger, against faulty ones, or step by step among others.

Arithmetic in a call may overflow. Then there is no answer at all, not even an error.
-/

namespace Bourse

/-- What comes back from work that may fail, or that may end in an overflow. -/
abbrev Outcome (ε α : Type) := Checked (Except ε α)

/-- What the store can be asked to do. -/
inductive StoreCall where
  /-- Adds a new order. -/
  | insertOrder (order : Order)
  /-- Looks an order up. -/
  | getOrder (id : OrderId)
  /-- Applies a step to an order. -/
  | transitionOrder (id : OrderId) (transition : Transition)
  /-- Lists the markets with resting orders. -/
  | activeMarkets
  /-- Lists the resting orders of one side of a market. -/
  | restingOrders (market : Market) (side : Side)
  /-- Fills two orders and records their trade, or does nothing. -/
  | commitMatch (maker taker : OrderId) (quantity : Decimal) (fees : FeeSchedule)
  /-- Lists a page of the orders of a user. -/
  | ordersForUser (user : UserId) (page : PageRequest)
  /-- Lists the orders that a user may cancel. -/
  | cancellableOrders (user : UserId)
  /-- Lists a page of the trades of a user. -/
  | tradesForUser (user : UserId) (page : PageRequest)
  /-- Lists the trades of an order. -/
  | tradesForOrder (id : OrderId)
  /-- Counts the orders of a status, or all of them. -/
  | countOrders (status : Option OrderStatus)
  /-- Looks the settlement record of a trade up. -/
  | getSettlement (id : TradeId)
  /-- Claims the record of a trade, if it is pending. -/
  | claimSettlement (id : TradeId)
  /-- Claims the first pending records, up to a number of them. -/
  | claimPending (limit : UInt64)
  /-- Records how an attempt to settle a trade ended. -/
  | recordAttempt (id : TradeId) (failure : Option String) (maxAttempts : UInt32)
  /-- Gives a claimed record back. -/
  | releaseClaim (id : TradeId)

namespace StoreCall

/-- The type of what a call answers with. -/
def Answer : StoreCall → Type
  | insertOrder _ => Order
  | getOrder _ => Option Order
  | transitionOrder _ _ => Order
  | activeMarkets => List Market
  | restingOrders _ _ => List Order
  | commitMatch _ _ _ _ => MatchOutcome
  | ordersForUser _ _ => Page Order
  | cancellableOrders _ => List Order
  | tradesForUser _ _ => Page Trade
  | tradesForOrder _ => List Trade
  | countOrders _ => Nat
  | getSettlement _ => Option SettlementRecord
  | claimSettlement _ => Option SettlementRecord
  | claimPending _ => List SettlementRecord
  | recordAttempt _ _ _ => SettlementRecord
  | releaseClaim _ => Unit

end StoreCall

namespace Store

/-- The answer of a call that leaves the store as it is. -/
def reply {α : Type} (s : Store) (a : α) : Outcome StoreError α × Store :=
  (.ok (.ok a), s)

/-- The answer of a call that fails without an effect, or changes the store. -/
def replyWith {α : Type} (s : Store) : Except StoreError (α × Store) → Outcome StoreError α × Store
  | .ok (a, s) => (.ok (.ok a), s)
  | .error e => (.ok (.error e), s)

/-- Carries out a call. The stamp gives the time and the name of a new trade. -/
def perform (s : Store) (stamp : Stamp) : (c : StoreCall) → Outcome StoreError c.Answer × Store
  | .insertOrder o => s.replyWith (s.insertOrder o)
  | .getOrder id => s.reply (s.orders.find? id)
  | .transitionOrder id t => s.replyWith (s.transitionOrder id t stamp.time)
  | .activeMarkets => s.reply s.activeMarkets
  | .restingOrders market side => s.reply (s.restingOrders market side)
  | .commitMatch maker taker quantity fees =>
    let (outcome, s) := s.commitMatch stamp maker taker quantity fees
    (outcome.map .ok, s)
  | .ordersForUser user page => s.reply (Page.ofList (s.ordersOf user) page)
  | .cancellableOrders user => s.reply (s.cancellableOrders user)
  | .tradesForUser user page => s.reply (Page.ofList (s.tradesOf user) page)
  | .tradesForOrder id => s.reply (s.tradesOfOrder id)
  | .countOrders status => s.reply (s.countOrders status)
  | .getSettlement id => s.reply (s.settlement? id)
  | .claimSettlement id => s.replyWith (s.claimSettlement id stamp.time)
  | .claimPending limit =>
    let (claimed, s) := s.claimPending limit stamp.time
    s.reply claimed
  | .recordAttempt id failure maxAttempts =>
    s.replyWith (s.recordAttempt id failure maxAttempts stamp.time)
  | .releaseClaim id => s.replyWith ((s.releaseClaim id).map fun s => ((), s))

end Store

/-- What the ledger can be asked to do. -/
inductive LedgerCall where
  /-- Asks whether a user has an amount available. -/
  | validate (user : UserId) (asset : String) (amount : Decimal)
  /-- Locks an amount that is available. -/
  | lock (user : UserId) (asset : String) (amount : Decimal)
  /-- Makes a locked amount available. -/
  | unlock (user : UserId) (asset : String) (amount : Decimal)
  /-- Makes the payments of a trade, and releases what the buyer reserved beyond its price. -/
  | settle (trade : Trade) (buyerRelease : Decimal)

namespace LedgerCall

/-- The type of what a call answers with. -/
def Answer : LedgerCall → Type
  | validate _ _ _ => Bool
  | lock _ _ _ => Wallet
  | unlock _ _ _ => Unit
  | settle _ _ => Unit

end LedgerCall

/-- Carries out a call. -/
def Ledger.perform (l : Ledger) : (c : LedgerCall) → Outcome LedgerError c.Answer × Ledger
  | .validate user asset amount => l.validate user asset amount
  | .lock user asset amount => l.lock user asset amount
  | .unlock user asset amount => l.unlock user asset amount
  | .settle trade release => l.settle trade release

/-- A step of the work of the exchange. -/
inductive Call where
  /-- Asks for a new name and the time. -/
  | stamp
  /-- Asks the store. -/
  | store (c : StoreCall)
  /-- Asks the ledger. -/
  | ledger (c : LedgerCall)

/-- The type of what comes back from a step. -/
def Call.Reply : Call → Type
  | stamp => Stamp
  | store c => Outcome StoreError c.Answer
  | ledger c => Outcome LedgerError c.Answer

end Bourse
