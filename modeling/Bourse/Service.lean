import Bourse.Engine

/-!
# Placing and cancelling orders

An order reaches the store only after the ledger has checked and locked the funds that it needs.
Once stored it is confirmed and matched at once. Cancelling an order releases what is left of its
funds.
-/

namespace Bourse

/-- A request to place an order. -/
structure NewOrder where
  userId : UserId
  /-- Whether the base asset is bought or sold. -/
  side : Side
  /-- The symbol as it was typed. -/
  symbol : String
  /-- The amount of the base asset. -/
  quantity : Decimal
  /-- The limit. -/
  price : Decimal
  /-- The product. -/
  tradingType : TradingType
  /-- What the owner notes. -/
  notes : Option String

/-- What is wrong with a request. -/
inductive BadRequest where
  /-- No order can be made of it. -/
  | order (cause : BadArgument)
  /-- It names no symbol. -/
  | symbol (cause : SymbolError)
  /-- The ledger refuses it. -/
  | ledger (cause : Refusal)
  deriving DecidableEq

def BadRequest.reason : BadRequest → String
  | .order cause => cause.reason
  | .symbol cause => cause.message
  | .ledger cause => cause.reason

/-- Why an order is in the wrong state for a request. -/
inductive BadState where
  /-- The order does not allow the step. -/
  | order (cause : OrderError)
  /-- Only an order that is pending or confirmed can be cancelled. -/
  | notCancellable (id : OrderId) (status : OrderStatus)
  deriving DecidableEq

def BadState.reason : BadState → String
  | .order cause => cause.message
  | .notCancellable id status =>
    "order " ++ id.toText ++ " is " ++ status.name ++
      "; only pending or confirmed orders can be cancelled"

/-- Why a request is not carried out. -/
inductive ServiceError where
  /-- The request is wrong in itself. -/
  | invalidArgument (cause : BadRequest)
  /-- The order is in the wrong state. -/
  | invalidState (cause : BadState)
  /-- There is no such order. -/
  | notFound (id : OrderId)
  /-- The order is not the one of the user who asks. -/
  | forbidden (user : UserId) (order : OrderId)
  /-- The user has less available than the order needs. -/
  | insufficientBalance (asset : String) (required : Decimal)
  /-- The funds could not be locked. -/
  | lockFailed (cause : LedgerError)
  /-- The funds could not be checked. -/
  | ledgerUnavailable (cause : LedgerError)
  /-- A call to the store failed. -/
  | store (cause : StoreError)
  deriving DecidableEq

namespace ServiceError

def message : ServiceError → String
  | invalidArgument cause => "invalid argument: " ++ cause.reason
  | invalidState cause => "invalid state: " ++ cause.reason
  | notFound id => "order " ++ id.toText ++ " not found"
  | forbidden user order => "user " ++ user.toText ++ " may not act on order " ++ order.toText
  | insufficientBalance asset required =>
    "insufficient " ++ asset ++ " balance: " ++ required.toText ++ " required"
  | lockFailed cause => "could not lock balance: " ++ cause.message
  | ledgerUnavailable cause => "ledger unavailable: " ++ cause.message
  | store cause => cause.message

/-- A refusal of an order. Arguments and states are told apart. -/
def ofOrder : OrderError → ServiceError
  | .invalidArgument cause => invalidArgument (.order cause)
  | cause => invalidState (.order cause)

/-- A failure of the store. A missing order and a refusal of an order are told apart from it. -/
def ofStore : StoreError → ServiceError
  | .orderNotFound id => notFound id
  | .order cause => ofOrder cause
  | cause => store cause

/-- A text that is no symbol. -/
def ofSymbol (cause : SymbolError) : ServiceError :=
  invalidArgument (.symbol cause)

/-- A failed check of the funds: a refusal is the fault of the request, and any other failure means
that the check could not be made. -/
def ofCheck : LedgerError → ServiceError
  | .rejected cause => invalidArgument (.ledger cause)
  | cause => ledgerUnavailable cause

end ServiceError

/-- An order that was placed, with the trades that it made at once. -/
structure OrderPlacement where
  /-- The order after its first matches. -/
  order : Order
  /-- The trades that it made at once. -/
  trades : List Trade
  /-- Where the order stands, in words. -/
  message : String

namespace Service

/-- Hands an error on in the words of the service. -/
def orElse {ε α : Type} (f : ε → ServiceError) (a : Except ε α) : Task ServiceError α :=
  Task.ofExcept (a.mapError f)

/-- A call to the store in the words of the service. -/
def store (c : StoreCall) : Task ServiceError c.Answer :=
  (Task.store c).mapError .ofStore

/-- The order with the given name, if it is stored. -/
def findOrder (id : OrderId) : Task ServiceError (Option Order) :=
  store (.getOrder id)

/-- The order with the given name. -/
def getOrder (id : OrderId) : Task ServiceError Order := do
  match ← findOrder id with
  | some o => return o
  | none => throw (.notFound id)

/-- The order that a request asks for, with a new name. -/
def buildOrder (request : NewOrder) : Task ServiceError Order := do
  let symbol ← orElse .ofSymbol (Symbol.parse request.symbol)
  let stamp : Stamp ← Task.stamp
  orElse .ofOrder (Order.create stamp {
    symbol
    amount := request.quantity
    price := request.price
    userId := request.userId
    side := request.side
    tradingType := request.tradingType
    notes := request.notes })

/-- Checks that a user has the funds of a reserve, and locks them. -/
def lockReserve (user : UserId) (reserve : Reserve) : Task ServiceError Unit := do
  let sufficient : Bool ←
    (Task.ledger (.validate user reserve.asset reserve.amount)).mapError .ofCheck
  unless sufficient do
    throw (.insufficientBalance reserve.asset reserve.amount)
  let _ ← (Task.ledger (.lock user reserve.asset reserve.amount)).mapError .lockFailed

/-- Unlocks the funds of a reserve, if the ledger can do it. -/
def unlockReserve (user : UserId) (reserve : Reserve) : Task ServiceError Unit := do
  let _ ← (Task.ledger (.unlock user reserve.asset reserve.amount)).attempt

/-- Stores an order whose funds are locked. They are unlocked if it cannot be stored. -/
def insertReserved (o : Order) (reserve : Reserve) : Task ServiceError Order := do
  match ← (store (.insertOrder o)).attempt with
  | .ok o => return o
  | .error e =>
    unlockReserve o.userId reserve
    throw e

/-- Confirms an order if it is pending, and tells whether it was. -/
def confirmIfPending (id : OrderId) : Task ServiceError Bool := do
  match ← findOrder id with
  | none => return false
  | some o =>
    if o.status = .pending then
      match ← (Task.store (.transitionOrder id .confirm)).attempt with
      | .ok _ => return true
      | .error (.order _) => return false
      | .error (.orderNotFound _) => return false
      | .error e => throw (.ofStore e)
    else return false

/-- Matches an order that has just been confirmed. A failure leaves it for the next pass. -/
def matchConfirmed (e : Engine) (id : OrderId) : Task ServiceError (List Trade) := do
  match ← (e.matchIncoming id).attempt with
  | .ok trades => return trades
  | .error _ => return []

/-- Places an order: checks and locks its funds, stores, confirms and matches it. -/
def createOrder (e : Engine) (request : NewOrder) : Task ServiceError OrderPlacement := do
  let o ← buildOrder request
  let reserve ← orElse .ofOrder (o.reserveFor o.amount)
  lockReserve o.userId reserve
  let o ← insertReserved o reserve
  let trades ← if ← confirmIfPending o.id then matchConfirmed e o.id else pure []
  let o := (← findOrder o.id).getD o
  let message ← Task.ofChecked o.statusMessage
  return ⟨o, trades, message⟩

/-- Unlocks what is left of an order's funds. -/
def releaseReserve (o : Order) : Task ServiceError Unit := do
  unless o.remaining.isZero do
    match o.reserveFor o.remaining with
    | .ok reserve => unlockReserve o.userId reserve
    | .error _ => return

/-- Cancels a pending or confirmed order of a user and unlocks its funds. -/
def cancelOrder (id : OrderId) (user : UserId) (reason : String) : Task ServiceError Order := do
  let o ← getOrder id
  if o.userId ≠ user then
    throw (.forbidden user id)
  unless o.status.isCancellable do
    throw (.invalidState (.notCancellable id o.status))
  let cancelled : Order ← store (.transitionOrder id (.cancel reason))
  releaseReserve cancelled
  return cancelled

/-- Cancels orders one by one. Those that can no longer be cancelled are passed over. -/
def cancelEach (reason : String) : List Order → Task ServiceError (List Order)
  | [] => return []
  | o :: rest => do
    match ← (Task.store (.transitionOrder o.id (.cancel reason))).attempt with
    | .ok cancelled =>
      releaseReserve cancelled
      return cancelled :: (← cancelEach reason rest)
    | .error (.order _) => cancelEach reason rest
    | .error e => throw (.ofStore e)

/-- Cancels all orders of a user that are pending or confirmed. -/
def cancelAll (user : UserId) (reason : String) : Task ServiceError (List Order) := do
  let orders : List Order ← store (.cancellableOrders user)
  cancelEach reason orders

/-- A page of a user's orders, the latest first. -/
def listOrders (user : UserId) (page : PageRequest) : Task ServiceError (Page Order) :=
  store (.ordersForUser user page)

/-- A page of a user's trades, the latest first. -/
def listTrades (user : UserId) (page : PageRequest) : Task ServiceError (Page Trade) :=
  store (.tradesForUser user page)

/-- The top of the book of a market, whose symbol is given as it was typed. -/
def bestBidAsk (symbol : String) (tradingType : TradingType) : Task ServiceError BestBidAsk := do
  let symbol ← orElse .ofSymbol (Symbol.parse symbol)
  (Engine.bestBidAsk ⟨symbol, tradingType⟩).mapError .ofStore

end Service

end Bourse
