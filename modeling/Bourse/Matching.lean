import Bourse.Order

/-!
# Choosing who trades

Given the two sides of a book in priority order, the pair that trades next is the best buy that has
a sell it can trade with, together with the best such sell. An order that comes to the book looks
for its best counterparty on the other side. Orders of one owner pass each other by, unless
self-trading is allowed.

Both searches stop at the first price that no longer crosses: behind it the prices only get worse.
-/

namespace Bourse

/-- A pair that is to trade. -/
structure MatchCandidate where
  /-- The buy of the pair. -/
  buyOrderId : OrderId
  /-- The sell of the pair. -/
  sellOrderId : OrderId
  /-- The one of the two that came first. -/
  makerOrderId : OrderId
  /-- The one of the two that came later. -/
  takerOrderId : OrderId
  /-- The maker's limit. -/
  price : Decimal
  /-- The smaller of what the two have left to trade. -/
  quantity : Decimal
  deriving DecidableEq

namespace MatchCandidate

/-- The earlier of two orders is the maker, the buy on a tie. -/
def makerAndTaker (buy sell : Order) : Order × Order :=
  if Order.timeLe buy sell then (buy, sell) else (sell, buy)

/-- The pair of a buy and a sell: the smaller remaining amount at the maker's price. -/
def between (buy sell : Order) : MatchCandidate :=
  let (maker, taker) := makerAndTaker buy sell
  { buyOrderId := buy.id
    sellOrderId := sell.id
    makerOrderId := maker.id
    takerOrderId := taker.id
    price := maker.price
    quantity := Decimal.min buy.remaining sell.remaining }

end MatchCandidate

/-- Whether the buyer pays what the seller asks. -/
def crosses (buy sell : Order) : Bool :=
  sell.price ≤ buy.price

/-- Whether the owners of two orders may trade with each other. -/
def ownersMayTrade (allowSelfTrade : Bool) (a b : Order) : Bool :=
  allowSelfTrade || a.userId ≠ b.userId

/-- The first sell that a buy can trade with, among sells with the lowest price first. -/
def firstSellFor (allowSelfTrade : Bool) (buy : Order) (sells : List Order) : Option Order :=
  ((sells.filter Order.isResting).takeWhile (crosses buy)).find? (ownersMayTrade allowSelfTrade buy)

/-- The best pair of two sides in priority order. -/
def bestMatch (allowSelfTrade : Bool) (buys sells : List Order) : Option MatchCandidate :=
  (buys.filter Order.isResting).findSome? fun buy =>
    (firstSellFor allowSelfTrade buy sells).map (MatchCandidate.between buy)

/-- An order on a side of the book and an order that comes to it, as buy and sell. -/
def asBuyAndSell (incoming other : Order) : Order × Order :=
  match incoming.side with
  | .buy => (incoming, other)
  | .sell => (other, incoming)

/-- Whether an order can be considered as a partner of an incoming one at all. -/
def isOpposite (incoming other : Order) : Bool :=
  other.isResting && other.id ≠ incoming.id && other.side ≠ incoming.side

/-- The best partner of an incoming order on the other side, which is in priority order. -/
def counterparty (allowSelfTrade : Bool) (incoming : Order) (opposite : List Order) :
    Option MatchCandidate :=
  if incoming.isResting then
    (((opposite.filter (isOpposite incoming)).takeWhile fun other =>
        let (buy, sell) := asBuyAndSell incoming other
        crosses buy sell).find? (ownersMayTrade allowSelfTrade incoming)).map fun other =>
      let (buy, sell) := asBuyAndSell incoming other
      MatchCandidate.between buy sell
  else none

end Bourse
