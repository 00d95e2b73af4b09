import Bourse.Wire.Values

/-!
# Orders on the wire

An order as a JSON record of all its fields.
-/

namespace Bourse.Wire

open Json (Reader RecordReader)
open Json.RecordReader (required optional)

def writeOrder (o : Order) : Json :=
  .record [
    ("id", writeOrderId o.id),
    ("symbol", writeSymbol o.symbol),
    ("side", writeSide o.side),
    ("trading_type", writeTradingType o.tradingType),
    ("amount", writeDecimal o.amount),
    ("remaining_amount", writeDecimal o.remaining),
    ("price", writeDecimal o.price),
    ("user_id", writeUserId o.userId),
    ("status", writeOrderStatus o.status),
    ("role", writeOrderRole o.role),
    ("created_at", writeInstant o.createdAt),
    ("updated_at", .option writeInstant o.updatedAt),
    ("notes", .option .string o.notes),
    ("sequence", writeWord o.sequence)]

/-- The fields of an order in the order in which they are written. -/
def orderRecord : RecordReader Order :=
  Order.mk
    <$> required "id" readOrderId
    <*> required "symbol" readSymbol
    <*> required "side" readSide
    <*> required "trading_type" readTradingType
    <*> required "amount" readDecimal
    <*> required "remaining_amount" readDecimal
    <*> required "price" readDecimal
    <*> required "user_id" readUserId
    <*> required "status" readOrderStatus
    <*> required "role" readOrderRole
    <*> required "created_at" readInstant
    <*> optional "updated_at" readInstant
    <*> optional "notes" Reader.string
    <*> required "sequence" Reader.word

def readOrder : Reader Order := orderRecord.read

end Bourse.Wire
