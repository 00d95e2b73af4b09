import Bourse.Matching
import Bourse.Trade

/-!
# The book

One side of a market in the order in which its orders are matched: the best price first (the
highest for buys, the lowest for sells), and the earlier order first among equal prices.

A match fills two orders by the same quantity and records the trade. The pair was chosen from an
earlier view of the book, so everything that matters is checked again on the orders as they are
now; a pair that no longer holds is a conflict and changes nothing.
-/

namespace Bourse

/-- The order in which the orders of one side are matched. -/
def priorityCmp (side : Side) (a b : Order) : Ordering :=
  let byPrice := match side with
    | .buy => b.price.cmp a.price
    | .sell => a.price.cmp b.price
  byPrice.then (Order.cmpTime a b)

/-- Whether `a` is matched before `b`, or is at the same place. -/
def priorityLe (side : Side) (a b : Order) : Bool :=
  priorityCmp side a b != .gt

/-- Orders of one side in the order in which they are matched. -/
def sortByPriority (side : Side) (orders : List Order) : List Order :=
  orders.mergeSort (priorityLe side)

/-- The top of the book of a market. -/
structure BestBidAsk where
  /-- The symbol of the market. -/
  symbol : Symbol
  /-- The product of the market. -/
  tradingType : TradingType
  /-- The highest limit of a resting buy. -/
  bestBid : Option Decimal
  /-- The lowest limit of a resting sell. -/
  bestAsk : Option Decimal
  /-- What the ask is above the bid. -/
  spread : Option Decimal
  deriving DecidableEq

/-- The best prices of two sides in priority order. -/
def BestBidAsk.ofSides (market : Market) (bids asks : List Order) : Checked BestBidAsk := do
  let bestBid := bids.head?.map Order.price
  let bestAsk := asks.head?.map Order.price
  let spread ← match bestBid, bestAsk with
    | some bid, some ask => some <$> ask.sub bid
    | _, _ => pure none
  return ⟨market.symbol, market.tradingType, bestBid, bestAsk, spread⟩

/-- What is wrong with a pair as such. -/
inductive BadPair where
  /-- A match needs a quantity above zero. -/
  | quantityNotPositive (quantity : Decimal)
  /-- A match needs a buyer and a seller. -/
  | sameSide
  /-- A match needs two orders. -/
  | oneOrder
  /-- The trade or one of the fills was refused. -/
  | refused (cause : OrderError)
  /-- A reason that comes from outside. -/
  | other (reason : String)
  deriving DecidableEq

def BadPair.reason : BadPair → String
  | .quantityNotPositive quantity => "match quantity must be positive, got " ++ quantity.toText
  | .sameSide => "maker and taker are on the same side"
  | .oneOrder => "an order cannot match itself"
  | .refused cause => cause.message
  | .other reason => reason

/-- Why two orders are not matched, although they were chosen to be. -/
inductive MatchConflict where
  /-- There is no such order. -/
  | orderMissing (id : OrderId)
  /-- The order is not in the book. -/
  | notResting (id : OrderId) (status : OrderStatus)
  /-- The order has less left to trade than is asked for. -/
  | insufficientRemaining (id : OrderId) (remaining requested : Decimal)
  /-- The limit of the buy is below that of the sell. -/
  | notCrossing (buy sell : OrderId) (buyPrice sellPrice : Decimal)
  /-- The two orders could never be matched so. -/
  | invalidPair (cause : BadPair)
  deriving DecidableEq

def MatchConflict.message : MatchConflict → String
  | .orderMissing id => "order " ++ id.toText ++ " not found"
  | .notResting id status =>
    "order " ++ id.toText ++ " is " ++ status.name ++ " and no longer resting"
  | .insufficientRemaining id remaining requested =>
    "order " ++ id.toText ++ " has " ++ remaining.toText ++ " remaining, " ++ requested.toText ++
      " requested"
  | .notCrossing buy sell buyPrice sellPrice =>
    "buy " ++ buy.toText ++ " at " ++ buyPrice.toText ++ " does not cross sell " ++ sell.toText ++
      " at " ++ sellPrice.toText
  | .invalidPair cause => "invalid pair: " ++ cause.reason

/-- The result of an attempt to match two orders. -/
inductive MatchOutcome where
  /-- The orders are filled, and this is their trade. -/
  | executed (trade : Trade)
  /-- Nothing has changed. -/
  | conflict (cause : MatchConflict)
  deriving DecidableEq

/-- A pair after its match. -/
structure Match where
  /-- The order that was there first, after its fill. -/
  maker : Order
  /-- The order that came to it, after its fill. -/
  taker : Order
  /-- The trade of the two. -/
  trade : Trade

/-- Whether an order is in the book with at least `quantity` to trade. -/
def checkAvailable (quantity : Decimal) (o : Order) : Except MatchConflict Unit := do
  unless o.status.isResting do
    throw (.notResting o.id o.status)
  if o.remaining < quantity then
    throw (.insufficientRemaining o.id o.remaining quantity)

/-- Takes a refusal of a trade or a fill as a fault of the pair. -/
def orConflict {α : Type} : Except OrderError α → Except MatchConflict α
  | .ok a => .ok a
  | .error e => .error (.invalidPair (.refused e))

/-- Fills an order. A refusal of the fill is a conflict. -/
def fillOrConflict (o : Order) (quantity : Decimal) (role : OrderRole) (now : Instant) :
    ExceptT MatchConflict Checked Order :=
  ExceptT.mk (orConflict <$> (o.fill quantity role now).run)

/-- Fills two orders by `quantity` and builds their trade. -/
def Match.execute (stamp : Stamp) (maker taker : Order) (quantity : Decimal) (fees : FeeSchedule) :
    ExceptT MatchConflict Checked Match := do
  unless quantity.isPos do
    throw (.invalidPair (.quantityNotPositive quantity))
  checkAvailable quantity maker
  checkAvailable quantity taker
  let (buy, sell) := Trade.buyAndSell maker taker
  if buy.side = sell.side then
    throw (.invalidPair .sameSide)
  if buy.price < sell.price then
    throw (.notCrossing buy.id sell.id buy.price sell.price)
  let trade ← orConflict (Trade.create stamp maker taker quantity fees)
  let maker ← fillOrConflict maker quantity .maker stamp.time
  let taker ← fillOrConflict taker quantity .taker stamp.time
  return ⟨maker, taker, trade⟩

end Bourse
