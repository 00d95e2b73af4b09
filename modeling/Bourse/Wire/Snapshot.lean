import Bourse.Store
import Bourse.Wire.Order
import Bourse.Wire.Trade

/-!
# Snapshots on the wire

The text of a snapshot file: one indented JSON record.
-/

namespace Bourse.Wire

open Json (Reader RecordReader)
open Json.RecordReader (required)

def writeSnapshot (s : Snapshot) : Json :=
  .record [
    ("orders", .list (s.orders.map writeOrder)),
    ("trades", .list (s.trades.map writeTrade)),
    ("settlements", .list (s.settlements.map writeSettlementRecord)),
    ("next_sequence", writeWord s.nextSequence)]

/-- The fields of a snapshot in the order in which they are written. -/
def snapshotRecord : RecordReader Snapshot :=
  Snapshot.mk
    <$> required "orders" (Reader.list readOrder)
    <*> required "trades" (Reader.list readTrade)
    <*> required "settlements" (Reader.list readSettlementRecord)
    <*> required "next_sequence" Reader.word

def readSnapshot : Reader Snapshot := snapshotRecord.read

end Bourse.Wire

namespace Bourse.Snapshot

/-- The text of a snapshot file, in lines. -/
def toText (s : Snapshot) : String := (Wire.writeSnapshot s).toIndentedText

/-- Reads the text of a snapshot file. -/
def ofText (s : String) : Except Json.Flaw Snapshot := Json.readText Wire.readSnapshot s

end Bourse.Snapshot
