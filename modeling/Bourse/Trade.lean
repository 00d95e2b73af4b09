import Bourse.Order

/-!
# Trades and fees

A trade is the record of one execution between a resting order, the maker, and the order that came
to it, the taker. It is built from the two orders and a fee schedule and never changes afterwards.
The price is the maker's limit.

Each side pays its fee in the asset that it receives: the buyer a share of the quantity in the base
asset, the seller a share of the price paid in the quote asset.
-/

namespace Bourse

/-- The shares of a trade that makers and takers pay, as fractions. -/
structure FeeSchedule where
  makerRate : Decimal
  takerRate : Decimal
  deriving DecidableEq

namespace FeeSchedule

/-- Nobody pays. -/
def zero : FeeSchedule := ⟨Decimal.zero, Decimal.zero⟩

/-- Makers pay a thousandth, takers twice as much. -/
def standard : FeeSchedule :=
  ⟨.ofMantissa 1 3 (by decide) (by decide), .ofMantissa 2 3 (by decide) (by decide)⟩

/-- The rate of a role. An order that has played both pays as a maker. -/
def rateFor (fees : FeeSchedule) : OrderRole → Decimal
  | .taker => fees.takerRate
  | .maker | .mixed => fees.makerRate

end FeeSchedule

/-- A trade between two orders. It never changes. -/
structure Trade where
  /-- The name of the trade. -/
  id : TradeId
  /-- The pair of assets that is traded. -/
  symbol : Symbol
  /-- The product. -/
  tradingType : TradingType
  /-- The order that buys. -/
  buyOrderId : OrderId
  /-- The order that sells. -/
  sellOrderId : OrderId
  /-- The order that was there first. -/
  makerOrderId : OrderId
  /-- The order that came to it. -/
  takerOrderId : OrderId
  /-- What one unit of the base asset costs: the limit of the maker. -/
  price : Decimal
  /-- The amount of the base asset. -/
  quantity : Decimal
  /-- What the quantity costs at the price. -/
  quoteQuantity : Decimal
  /-- The owner of the order that buys. -/
  buyerUserId : UserId
  /-- The owner of the order that sells. -/
  sellerUserId : UserId
  /-- The owner of the order that was there first. -/
  makerUserId : UserId
  /-- The owner of the order that came to it. -/
  takerUserId : UserId
  /-- The share that the maker pays as a fee. -/
  makerFeeRate : Decimal
  /-- The share that the taker pays as a fee. -/
  takerFeeRate : Decimal
  /-- Paid in the base asset. -/
  buyerFee : Decimal
  /-- Paid in the quote asset. -/
  sellerFee : Decimal
  /-- When the trade was made. -/
  createdAt : Instant
  deriving DecidableEq

namespace Trade

/-- A maker and a taker as buy and sell, which the side of the maker tells. -/
def buyAndSell (maker taker : Order) : Order × Order :=
  match maker.side with
  | .buy => (maker, taker)
  | .sell => (taker, maker)

/-- The roles of buyer and seller, which the side of the maker tells. -/
def buyerAndSellerRole (maker : Order) : OrderRole × OrderRole :=
  match maker.side with
  | .buy => (.maker, .taker)
  | .sell => (.taker, .maker)

/-- The trade of `quantity` between a maker and a taker, who stand on opposite sides of one
market. -/
def create (stamp : Stamp) (maker taker : Order) (quantity : Decimal) (fees : FeeSchedule) :
    Except OrderError Trade := do
  if maker.side = taker.side then
    throw (.invalidArgument .sameSide)
  if maker.market ≠ taker.market then
    throw (.invalidArgument (.differentMarkets maker.market taker.market))
  unless quantity.isPos do
    throw (.invalidArgument (.notPositive "trade quantity" quantity))
  let (buy, sell) := buyAndSell maker taker
  let (buyerRole, sellerRole) := buyerAndSellerRole maker
  let quoteQuantity ← product maker.price quantity "trade quote quantity"
  let buyerFee ← product quantity (fees.rateFor buyerRole) "buyer fee"
  let sellerFee ← product quoteQuantity (fees.rateFor sellerRole) "seller fee"
  return {
    id := ⟨stamp.id⟩
    symbol := maker.symbol
    tradingType := maker.tradingType
    buyOrderId := buy.id
    sellOrderId := sell.id
    makerOrderId := maker.id
    takerOrderId := taker.id
    price := maker.price
    quantity := quantity
    quoteQuantity := quoteQuantity
    buyerUserId := buy.userId
    sellerUserId := sell.userId
    makerUserId := maker.userId
    takerUserId := taker.userId
    makerFeeRate := fees.makerRate
    takerFeeRate := fees.takerRate
    buyerFee := buyerFee
    sellerFee := sellerFee
    createdAt := stamp.time }

/-- Whether a user is the buyer or the seller. -/
def involves (t : Trade) (user : UserId) : Bool :=
  t.buyerUserId = user || t.sellerUserId = user

/-- Whether an order is one of the two. -/
def involvesOrder (t : Trade) (order : OrderId) : Bool :=
  t.buyOrderId = order || t.sellOrderId = order

end Trade

end Bourse
