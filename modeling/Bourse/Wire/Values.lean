import Bourse.Json.Printer
import Bourse.Json.Reader
import Bourse.Order

/-!
# Values on the wire

How single values stand in JSON: numbers of exact value as strings, so that no digit and no scale
is lost; names of orders and trades, times and symbols as strings; users and sequence numbers as
numbers; and choices by their names. A decimal number may also be read from a JSON number, by the
shortest digits that stand for it.
-/

namespace Bourse.Wire

open Json (Reader)

/-- A decimal number as the string of its digits, which keeps the scale. -/
def writeDecimal (a : Decimal) : Json := .string a.toText

/-- The decimal number of a JSON number: of a whole one its value, of any other one the number of
the shortest digits that stand for it. -/
def decimalOfNumber? : Number → Option Decimal
  | .whole n => Decimal.ofInt? n
  | .real x => Decimal.ofText? x.plainText

/-- Reads a decimal number from a string or from a JSON number. -/
def readDecimal : Reader Decimal
  | .number n =>
    match decimalOfNumber? n with
    | some a => .ok a
    | none => .error .mismatched
  | j => Reader.string.convert Decimal.ofText? j

/-- An identifier as the string of its text. -/
def writeUuid (u : Uuid) : Json := .string u.toText

/-- Reads an identifier in any of its text forms. -/
def readUuid : Reader Uuid := Reader.string.convert Uuid.ofText?

/-- The name of an order, as its identifier is written. -/
def writeOrderId (id : OrderId) : Json := writeUuid id.uuid

/-- Reads the name of an order. -/
def readOrderId : Reader OrderId := readUuid.convert fun u => some ⟨u⟩

/-- The name of a trade, as its identifier is written. -/
def writeTradeId (id : TradeId) : Json := writeUuid id.uuid

/-- Reads the name of a trade. -/
def readTradeId : Reader TradeId := readUuid.convert fun u => some ⟨u⟩

/-- A 64-bit number as a JSON number. -/
def writeWord (n : UInt64) : Json := .nat n.toNat

/-- A user as the number. -/
def writeUserId (id : UserId) : Json := writeWord id.number

/-- Reads a user from a number of 64 bits without sign. -/
def readUserId : Reader UserId := Reader.word.convert fun n => some ⟨n⟩

/-- A time as the string of its text. -/
def writeInstant (t : Instant) : Json := .string t.toText

/-- Reads a time, at any offset. -/
def readInstant : Reader Instant := Reader.string.convert Instant.ofText?

/-- A symbol as the string of its text. -/
def writeSymbol (s : Symbol) : Json := .string s.toText

/-- Reads a symbol as it may be typed, so that no other string is one. -/
def readSymbol : Reader Symbol := Reader.string.convert fun s => (Symbol.parse s).toOption

/-- A product by its name. -/
def writeTradingType (t : TradingType) : Json := .string t.name

/-- Reads a product by its name. -/
def readTradingType : Reader TradingType := Reader.oneOf TradingType.names

/-- A side by its name. -/
def writeSide (s : Side) : Json := .string s.name

/-- Reads a side by its name. -/
def readSide : Reader Side := Reader.oneOf Side.names

/-- The status of an order by its name. -/
def writeOrderStatus (s : OrderStatus) : Json := .string s.name

/-- Reads the status of an order by its name. -/
def readOrderStatus : Reader OrderStatus := Reader.oneOf OrderStatus.names

/-- The role of an order by its name. -/
def writeOrderRole (r : OrderRole) : Json := .string r.name

/-- Reads the role of an order by its name. -/
def readOrderRole : Reader OrderRole := Reader.oneOf OrderRole.names

/-- A market as an object. -/
def writeMarket (m : Market) : Json :=
  .record [("symbol", writeSymbol m.symbol), ("trading_type", writeTradingType m.tradingType)]

end Bourse.Wire
