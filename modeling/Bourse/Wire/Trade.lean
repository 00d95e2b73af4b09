import Bourse.Matching
import Bourse.Settlement
import Bourse.Wire.Values

/-!
# Trades on the wire

Trades, fee schedules, chosen pairs and settlement records as JSON records.
-/

namespace Bourse.Wire

open Json (Reader RecordReader)
open Json.RecordReader (required optional)

def writeFeeSchedule (fees : FeeSchedule) : Json :=
  .record [
    ("maker_rate", writeDecimal fees.makerRate),
    ("taker_rate", writeDecimal fees.takerRate)]

def writeTrade (t : Trade) : Json :=
  .record [
    ("id", writeTradeId t.id),
    ("symbol", writeSymbol t.symbol),
    ("trading_type", writeTradingType t.tradingType),
    ("buy_order_id", writeOrderId t.buyOrderId),
    ("sell_order_id", writeOrderId t.sellOrderId),
    ("maker_order_id", writeOrderId t.makerOrderId),
    ("taker_order_id", writeOrderId t.takerOrderId),
    ("price", writeDecimal t.price),
    ("quantity", writeDecimal t.quantity),
    ("quote_quantity", writeDecimal t.quoteQuantity),
    ("buyer_user_id", writeUserId t.buyerUserId),
    ("seller_user_id", writeUserId t.sellerUserId),
    ("maker_user_id", writeUserId t.makerUserId),
    ("taker_user_id", writeUserId t.takerUserId),
    ("maker_fee_rate", writeDecimal t.makerFeeRate),
    ("taker_fee_rate", writeDecimal t.takerFeeRate),
    ("buyer_fee", writeDecimal t.buyerFee),
    ("seller_fee", writeDecimal t.sellerFee),
    ("created_at", writeInstant t.createdAt)]

/-- The fields of a trade in the order in which they are written. -/
def tradeRecord : RecordReader Trade :=
  Trade.mk
    <$> required "id" readTradeId
    <*> required "symbol" readSymbol
    <*> required "trading_type" readTradingType
    <*> required "buy_order_id" readOrderId
    <*> required "sell_order_id" readOrderId
    <*> required "maker_order_id" readOrderId
    <*> required "taker_order_id" readOrderId
    <*> required "price" readDecimal
    <*> required "quantity" readDecimal
    <*> required "quote_quantity" readDecimal
    <*> required "buyer_user_id" readUserId
    <*> required "seller_user_id" readUserId
    <*> required "maker_user_id" readUserId
    <*> required "taker_user_id" readUserId
    <*> required "maker_fee_rate" readDecimal
    <*> required "taker_fee_rate" readDecimal
    <*> required "buyer_fee" readDecimal
    <*> required "seller_fee" readDecimal
    <*> required "created_at" readInstant

def readTrade : Reader Trade := tradeRecord.read

def writeMatchCandidate (c : MatchCandidate) : Json :=
  .record [
    ("buy_order_id", writeOrderId c.buyOrderId),
    ("sell_order_id", writeOrderId c.sellOrderId),
    ("maker_order_id", writeOrderId c.makerOrderId),
    ("taker_order_id", writeOrderId c.takerOrderId),
    ("price", writeDecimal c.price),
    ("quantity", writeDecimal c.quantity)]

def writeSettlementStatus (s : SettlementStatus) : Json := .string s.name

def readSettlementStatus : Reader SettlementStatus := Reader.oneOf SettlementStatus.names

def writeSettlementRecord (r : SettlementRecord) : Json :=
  .record [
    ("trade", writeTrade r.trade),
    ("buyer_release", writeDecimal r.buyerRelease),
    ("status", writeSettlementStatus r.status),
    ("attempts", .nat r.attempts.toNat),
    ("last_error", .option .string r.lastError),
    ("created_at", writeInstant r.createdAt),
    ("updated_at", .option writeInstant r.updatedAt)]

/-- The fields of a settlement record in the order in which they are written. -/
def settlementRecord : RecordReader SettlementRecord :=
  SettlementRecord.mk
    <$> required "trade" readTrade
    <*> required "buyer_release" readDecimal
    <*> required "status" readSettlementStatus
    <*> required "attempts" Reader.halfWord
    <*> optional "last_error" Reader.string
    <*> required "created_at" readInstant
    <*> optional "updated_at" readInstant

def readSettlementRecord : Reader SettlementRecord := settlementRecord.read

end Bourse.Wire
