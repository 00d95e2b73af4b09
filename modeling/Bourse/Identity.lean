import Bourse.Uuid
import Std.Data.ExtTreeMap

/-!
# Names of orders, trades and users

Orders and trades are named by identifiers that never mix, users by a 64-bit number.
-/

namespace Bourse

/-- The name of an order. -/
structure OrderId where
  uuid : Uuid
  deriving DecidableEq

/-- The name of a trade. -/
structure TradeId where
  uuid : Uuid
  deriving DecidableEq

/-- Names of trades are in the order of their numbers. -/
instance : Ord TradeId := ⟨compareOn fun id => id.uuid.value⟩

instance : Std.TransOrd TradeId :=
  inferInstanceAs (Std.TransCmp (compareOn fun id : TradeId => id.uuid.value))

instance : Std.LawfulEqOrd TradeId where
  eq_of_compare {a b} h := by
    cases a
    cases b
    exact congrArg (fun value => TradeId.mk ⟨value⟩) (Std.LawfulEqOrd.eq_of_compare h)

/-- The number of a user, the owner of orders and wallets. -/
structure UserId where
  number : UInt64
  deriving DecidableEq

def OrderId.toText (id : OrderId) : String := id.uuid.toText

def TradeId.toText (id : TradeId) : String := id.uuid.toText

def UserId.toText (id : UserId) : String := toString id.number.toNat

end Bourse
