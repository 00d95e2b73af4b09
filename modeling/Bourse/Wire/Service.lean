import Bourse.Service
import Bourse.Wire.Order
import Bourse.Wire.Trade

/-!
# Requests and answers on the wire

The requests that the service takes, and what it answers with.
-/

namespace Bourse.Wire

open Json (Reader RecordReader)
open Json.RecordReader (required defaulted)

def writeNewOrder (r : NewOrder) : Json :=
  .record [
    ("user_id", writeUserId r.userId),
    ("side", writeSide r.side),
    ("symbol", .string r.symbol),
    ("quantity", writeDecimal r.quantity),
    ("price", writeDecimal r.price),
    ("trading_type", writeTradingType r.tradingType),
    ("notes", .option .string r.notes)]

/-- The fields of a request to place an order. The product is spot unless it is given. -/
def newOrderRecord : RecordReader NewOrder :=
  NewOrder.mk
    <$> required "user_id" readUserId
    <*> required "side" readSide
    <*> required "symbol" Reader.string
    <*> required "quantity" readDecimal
    <*> required "price" readDecimal
    <*> defaulted "trading_type" readTradingType .spot
    <*> defaulted "notes" (Reader.option Reader.string) none

def readNewOrder : Reader NewOrder := newOrderRecord.read

def writeTrades (trades : List Trade) : Json := .list (trades.map writeTrade)

def writeOrders (orders : List Order) : Json := .list (orders.map writeOrder)

def writeOrderPlacement (p : OrderPlacement) : Json :=
  .record [
    ("order", writeOrder p.order),
    ("trades", writeTrades p.trades),
    ("message", .string p.message)]

def writeBestBidAsk (b : BestBidAsk) : Json :=
  .record [
    ("symbol", writeSymbol b.symbol),
    ("trading_type", writeTradingType b.tradingType),
    ("best_bid", .option writeDecimal b.bestBid),
    ("best_ask", .option writeDecimal b.bestAsk),
    ("spread", .option writeDecimal b.spread)]

def writePage {α : Type} (write : α → Json) (p : Page α) : Json :=
  .record [
    ("items", .list (p.items.map write)),
    ("page", writeWord p.page),
    ("page_size", writeWord p.pageSize),
    ("total", .nat p.total)]

def writeWallet (w : Wallet) : Json :=
  .record [
    ("user_id", writeUserId w.userId),
    ("asset", .string w.asset),
    ("available", writeDecimal w.available),
    ("locked", writeDecimal w.locked)]

end Bourse.Wire
