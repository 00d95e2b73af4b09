import Bourse.Decimal.Arithmetic
import Bourse.Decimal.Text
import Bourse.Identity
import Bourse.Instant
import Bourse.Symbol

/-!
# Orders

A limit order and its life. An order starts `pending` with its whole amount remaining. Confirming
puts it into the book; fills lower the remaining amount and make the order `partially` filled and
in the end `completed`; a pending or confirmed order can be cancelled, and any order that is not
finished can fail. Every change records the time.

An order in the book is *resting*: confirmed or partially filled, with something left to trade.
-/

namespace Bourse

/-- The side of the book an order stands on. -/
inductive Side where
  /-- It gives the quote asset for the base asset. -/
  | buy
  /-- It gives the base asset for the quote asset. -/
  | sell
  deriving DecidableEq

namespace Side

/-- The side an order trades with. -/
def opposite : Side → Side
  | .buy => .sell
  | .sell => .buy

def name : Side → String
  | .buy => "Buy"
  | .sell => "Sell"

def names : List (String × Side) :=
  [("Buy", .buy), ("Sell", .sell)]

end Side

/-- Where an order stands in its life. -/
inductive OrderStatus where
  /-- It is stored and not in the book yet. -/
  | pending
  /-- It is in the book, and nothing of it is filled. -/
  | confirmed
  /-- It is in the book, and part of it is filled. -/
  | partially
  /-- All of it is filled. -/
  | completed
  /-- The owner has taken it back. -/
  | cancelled
  /-- It cannot be carried out. -/
  | failed
  deriving DecidableEq

namespace OrderStatus

def name : OrderStatus → String
  | .pending => "Pending"
  | .confirmed => "Confirmed"
  | .partially => "Partially"
  | .completed => "Completed"
  | .cancelled => "Cancelled"
  | .failed => "Failed"

def names : List (String × OrderStatus) :=
  [("Pending", .pending), ("Confirmed", .confirmed), ("Partially", .partially),
    ("Completed", .completed), ("Cancelled", .cancelled), ("Failed", .failed)]

/-- A finished order never changes again. -/
def isTerminal : OrderStatus → Bool
  | .completed | .cancelled | .failed => true
  | _ => false

/-- The statuses of orders in the book. -/
def isResting : OrderStatus → Bool
  | .confirmed | .partially => true
  | _ => false

/-- The statuses from which the owner may cancel. -/
def isCancellable : OrderStatus → Bool
  | .pending | .confirmed => true
  | _ => false

end OrderStatus

/-- The part an order has played in its fills. -/
inductive OrderRole where
  /-- The other side came to it. -/
  | maker
  /-- It came to an order in the book. -/
  | taker
  /-- Some of its fills were of the one kind, and some of the other. -/
  | mixed
  deriving DecidableEq

namespace OrderRole

def name : OrderRole → String
  | .maker => "Maker"
  | .taker => "Taker"
  | .mixed => "Mixed"

def names : List (String × OrderRole) :=
  [("Maker", .maker), ("Taker", .taker), ("Mixed", .mixed)]

end OrderRole

/-- What is wrong with what an order or a trade is to be made of. -/
inductive BadArgument where
  /-- The quantity named must be above zero. -/
  | notPositive (what : String) (got : Decimal)
  /-- The product named has no decimal number. -/
  | overflows (what : String) (a b : Decimal)
  /-- An order cannot fail without a reason. -/
  | blankReason
  /-- A trade needs a buyer and a seller. -/
  | sameSide
  /-- A trade stays within one market. -/
  | differentMarkets (maker taker : Market)
  /-- A reason that comes from outside. -/
  | other (reason : String)
  deriving DecidableEq

def BadArgument.reason : BadArgument → String
  | .notPositive what got => what ++ " must be positive, got " ++ got.toText
  | .overflows what a b => what ++ " overflows: " ++ a.toText ++ " * " ++ b.toText
  | .blankReason => "failure reason must not be empty"
  | .sameSide => "maker and taker must be on opposite sides"
  | .differentMarkets maker taker =>
    "maker market " ++ maker.toText ++ " differs from taker market " ++ taker.toText
  | .other reason => reason

/-- A step in the life of an order. -/
inductive OrderAction where
  | confirm
  | fill
  | cancel
  | fail
  deriving DecidableEq

def OrderAction.name : OrderAction → String
  | .confirm => "confirm"
  | .fill => "fill"
  | .cancel => "cancel"
  | .fail => "fail"

/-- Why an order cannot be built or changed. -/
inductive OrderError where
  /-- The order cannot be built, or not be changed, from what is given. -/
  | invalidArgument (cause : BadArgument)
  /-- The order's status does not allow the step. -/
  | invalidState (id : OrderId) (status : OrderStatus) (action : OrderAction)
  /-- A fill larger than what remains. -/
  | overfill (id : OrderId) (requested remaining : Decimal)
  deriving DecidableEq

def OrderError.message : OrderError → String
  | .invalidArgument cause => "invalid argument: " ++ cause.reason
  | .invalidState id status action =>
    "order " ++ id.toText ++ " is " ++ status.name ++ "; cannot " ++ action.name
  | .overfill id requested remaining =>
    "fill of " ++ requested.toText ++ " exceeds remaining " ++ remaining.toText ++ " on order " ++
      id.toText

/-- The product of two numbers, or an error that names what it was to be. -/
def product (a b : Decimal) (what : String) : Except OrderError Decimal :=
  match a.mul? b with
  | some c => .ok c
  | none => .error (.invalidArgument (.overflows what a b))

/-- A limit order as it is stored. -/
structure Order where
  /-- The name of the order. -/
  id : OrderId
  /-- The pair of assets that it trades. -/
  symbol : Symbol
  /-- Whether it buys or sells the base asset. -/
  side : Side
  /-- The product in which it trades the pair. -/
  tradingType : TradingType
  /-- The amount of the base asset that was asked for. -/
  amount : Decimal
  /-- The part of the amount that is not traded yet. -/
  remaining : Decimal
  /-- The limit: the most a buyer pays, the least a seller takes. -/
  price : Decimal
  /-- The owner. -/
  userId : UserId
  /-- Where it stands in its life. -/
  status : OrderStatus
  /-- The part that it has played in its fills. -/
  role : OrderRole
  /-- When it was created. The earlier of two orders has priority at the same limit. -/
  createdAt : Instant
  /-- When it was last changed, if it was. -/
  updatedAt : Option Instant
  /-- What the owner noted, or why it was cancelled or failed. -/
  notes : Option String
  /-- The place in the order of insertion, given by the store. -/
  sequence : UInt64
  deriving DecidableEq

/-- The terms of an order that is to be placed. -/
structure OrderTerms where
  /-- The pair of assets that is to be traded. -/
  symbol : Symbol
  /-- The amount of the base asset. -/
  amount : Decimal
  /-- The limit. -/
  price : Decimal
  /-- The owner. -/
  userId : UserId
  /-- Whether the base asset is bought or sold. -/
  side : Side
  /-- The product. -/
  tradingType : TradingType
  /-- What the owner notes. -/
  notes : Option String

/-- What the outside world gives to a new order: its name and the time. -/
structure Stamp where
  /-- A name that was not used before. -/
  id : Uuid
  /-- The time. -/
  time : Instant

/-- The funds that an order ties up. -/
structure Reserve where
  /-- The asset: quote for a buy, base for a sell. -/
  asset : String
  /-- How much of it. -/
  amount : Decimal
  deriving DecidableEq

namespace Order

/-- A new order. Its amount and price must be positive and their product a decimal number. Notes
that hold nothing but blanks are dropped. -/
def create (stamp : Stamp) (terms : OrderTerms) : Except OrderError Order := do
  unless terms.amount.isPos do
    throw (.invalidArgument (.notPositive "amount" terms.amount))
  unless terms.price.isPos do
    throw (.invalidArgument (.notPositive "price" terms.price))
  let _ ← product terms.price terms.amount "order notional"
  return {
    id := ⟨stamp.id⟩
    symbol := terms.symbol
    side := terms.side
    tradingType := terms.tradingType
    amount := terms.amount
    remaining := terms.amount
    price := terms.price
    userId := terms.userId
    status := .pending
    role := .maker
    createdAt := stamp.time
    updatedAt := none
    notes := terms.notes.filter fun n => !Text.isBlankText n
    sequence := 0 }

/-- The market of an order. -/
def market (o : Order) : Market := ⟨o.symbol, o.tradingType⟩

/-- The part of the amount that is traded. -/
def filled (o : Order) : Checked Decimal := o.amount.sub o.remaining

/-- Whether an order is in the book and has something left to trade. -/
def isResting (o : Order) : Bool := o.status.isResting && o.remaining.isPos

/-- The order of time: by creation, then by insertion. -/
def cmpTime (a b : Order) : Ordering :=
  (compare a.createdAt.rank b.createdAt.rank).then (compare a.sequence.toNat b.sequence.toNat)

/-- Whether `a` came before `b` or at the same time. -/
def timeLe (a b : Order) : Bool := cmpTime a b != .gt

/-- The funds that `quantity` of an order ties up: the price of it in the quote asset for a buyer,
the quantity itself in the base asset for a seller. -/
def reserveFor (o : Order) (quantity : Decimal) : Except OrderError Reserve :=
  match o.side with
  | .buy => do return ⟨o.symbol.quote, ← product o.price quantity "reserve"⟩
  | .sell => .ok ⟨o.symbol.base, quantity⟩

/-- Puts a pending order into the book. -/
def confirm (o : Order) (now : Instant) : Except OrderError Order :=
  if o.status = .pending then .ok { o with status := .confirmed, updatedAt := some now }
  else .error (.invalidState o.id o.status .confirm)

/-- The role after a further fill: the first fill decides it, and a different one mixes it. -/
def roleAfter (o : Order) (role : OrderRole) : OrderRole :=
  if o.remaining.SameValue o.amount ∨ o.role = role then role else .mixed

/-- Trades `quantity` of an order in the given role. -/
def fill (o : Order) (quantity : Decimal) (role : OrderRole) (now : Instant) :
    ExceptT OrderError Checked Order := do
  unless o.status.isResting do
    throw (.invalidState o.id o.status .fill)
  unless quantity.isPos do
    throw (.invalidArgument (.notPositive "fill quantity" quantity))
  if o.remaining < quantity then
    throw (.overfill o.id quantity o.remaining)
  let remaining ← (o.remaining.sub quantity : Checked Decimal)
  return { o with
    remaining := remaining
    role := o.roleAfter role
    status := if remaining.isZero then .completed else .partially
    updatedAt := some now }

/-- Cancels a pending or confirmed order. A reason that is not blank replaces the notes. -/
def cancel (o : Order) (reason : String) (now : Instant) : Except OrderError Order :=
  if o.status.isCancellable then
    .ok { o with
      status := .cancelled
      notes := if Text.isBlankText reason then o.notes else some (Text.trimmed reason)
      updatedAt := some now }
  else .error (.invalidState o.id o.status .cancel)

/-- Marks an order that is not finished as failed, for a reason that is not blank. -/
def fail (o : Order) (reason : String) (now : Instant) : Except OrderError Order :=
  if Text.isBlankText reason then .error (.invalidArgument .blankReason)
  else if o.status.isTerminal then .error (.invalidState o.id o.status .fail)
  else .ok { o with
    status := .failed
    notes := some (Text.trimmed reason)
    updatedAt := some now }

def statusText : OrderStatus → String
  | .completed => "Order fully executed"
  | .partially => "Order partially executed, remainder resting in the book"
  | .confirmed => "Order placed in the book"
  | .pending => "Order accepted, awaiting confirmation"
  | .cancelled => "Order cancelled"
  | .failed => "Order failed"

/-- Where an order stands, in words, with its role once it has traded. -/
def statusMessage (o : Order) : Checked String := do
  let filled ← o.filled
  if filled.isZero then return statusText o.status
  match o.role with
  | .taker => return statusText o.status ++ " as taker"
  | .mixed => return statusText o.status ++ " as maker and taker"
  | .maker => return statusText o.status

end Order

/-- A step that is applied to a stored order. -/
inductive Transition where
  /-- Puts the order into the book. -/
  | confirm
  /-- Takes the order back for a reason. -/
  | cancel (reason : String)
  /-- Gives the order up for a reason. -/
  | fail (reason : String)
  deriving DecidableEq

/-- The order after a step, if it allows the step. -/
def Transition.apply (t : Transition) (o : Order) (now : Instant) : Except OrderError Order :=
  match t with
  | .confirm => o.confirm now
  | .cancel reason => o.cancel reason now
  | .fail reason => o.fail reason now

end Bourse
