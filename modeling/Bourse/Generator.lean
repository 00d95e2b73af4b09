import Bourse.Keystream
import Bourse.Replay
import Bourse.Binary64

/-!
# Generated orders

A stream of requests drawn from a seed, for replays and demonstrations. The same settings and seed
give the same requests. Each request draws its side, its product, its quantity, its price and its
user, in this order; the ranges are inclusive, and a range whose ends are swapped is read the other
way round.
-/

namespace Bourse

/-- What kind of requests are drawn. -/
structure GeneratorConfig where
  seed : UInt64
  symbol : String
  numOrders : UInt64
  /-- How likely a buy is. -/
  buyRatio : Binary64
  /-- How likely futures are. -/
  futuresRatio : Binary64
  priceMin : Int
  priceMax : Int
  quantityMin : UInt64
  quantityMax : UInt64
  numUsers : UInt64

namespace GeneratorConfig

def half : Binary64 := ⟨false, pow2 52, -53⟩

/-- A thousand spot orders of five users around a price of 100. -/
def standard : GeneratorConfig where
  seed := 0
  symbol := "XAU/USD"
  numOrders := 1000
  buyRatio := half
  futuresRatio := Binary64.zero
  priceMin := 95
  priceMax := 105
  quantityMin := 1
  quantityMax := 100
  numUsers := 5

end GeneratorConfig

namespace Generator

/-- A draw that comes true with the given likelihood. -/
def chance (ratio : Binary64) : StateM Keystream Bool := do
  let fraction := (← Keystream.next).toNat / pow2 11
  return !ratio.negative && fraction * ratio.den < pow2 53 * ratio.num

/-- The part of a 64-bit draw that decides a choice among `count` values: the high word of the
product is the choice, and the low word must not lie in the incomplete last run. -/
def choice? (count : Nat) (draw : UInt64) : Option Nat :=
  let zone := count * pow2 (63 - count.log2) - 1
  let product := draw.toNat * count
  if product % UInt64.size ≤ zone then some (product / UInt64.size) else none

/-- One of `count` values. Draws are repeated until one decides; the stream of draws repeats itself
after `2 ^ 67` of them, so no further ones would help. -/
def choose (count : Nat) : Nat → StateM Keystream Nat
  | 0 => return 0
  | fuel + 1 => do
    match choice? count (← Keystream.next) with
    | some n => return n
    | none => choose count fuel

/-- A number from `lo` to `hi`. -/
def between (lo hi : Nat) : StateM Keystream Nat := do
  let count := hi - lo + 1
  if count = UInt64.size then return (← Keystream.next).toNat
  return lo + (← choose count (pow2 67))

/-- A number between two ends, each of them at least one, in either order. -/
def betweenEnds (a b : Nat) : StateM Keystream Nat :=
  between (min (max a 1) (max b 1)) (max (max a 1) (max b 1))

/-- The next request. -/
def next (c : GeneratorConfig) : StateM Keystream NewOrder := do
  let side := if ← chance c.buyRatio then Side.buy else .sell
  let tradingType := if ← chance c.futuresRatio then TradingType.futures else .spot
  let quantity ← betweenEnds c.quantityMin.toNat c.quantityMax.toNat
  let price ← betweenEnds c.priceMin.toNat c.priceMax.toNat
  let user ← between 1 (max c.numUsers.toNat 1)
  return {
    userId := ⟨UInt64.ofNat user⟩
    side
    symbol := c.symbol
    quantity := Decimal.ofWord (UInt64.ofNat quantity)
    price := Decimal.ofWord (UInt64.ofNat price)
    tradingType
    notes := none }

/-- The next requests, so many of them. -/
def take (c : GeneratorConfig) : Nat → StateM Keystream (List NewOrder)
  | 0 => return []
  | n + 1 => do
    let request ← next c
    return request :: (← take c n)

/-- All requests of a description. -/
def all (c : GeneratorConfig) : List NewOrder :=
  ((take c c.numOrders.toNat).run (Keystream.ofSeed c.seed)).1

/-- Deposits an amount of one asset and of another for `n` users from a given one on. -/
def fundFrom (base quote : String) (amount : Decimal) :
    Nat → Nat → Ledger → Checked Unit × Ledger
  | 0, _, l => (.ok (), l)
  | n + 1, user, l =>
    match l.deposit ⟨UInt64.ofNat user⟩ base amount with
    | (.error e, l) => (.error e, l)
    | (.ok (), l) =>
      match l.deposit ⟨UInt64.ofNat user⟩ quote amount with
      | (.error e, l) => (.error e, l)
      | (.ok (), l) => fundFrom base quote amount n (user + 1) l

/-- Deposits an amount of both assets of the symbol for every user of a configuration. -/
def fundUsers (c : GeneratorConfig) (amount : Decimal) (l : Ledger) :
    Outcome ServiceError Unit × Ledger :=
  match Symbol.parse c.symbol with
  | .error e => (.ok (.error (.ofSymbol e)), l)
  | .ok symbol =>
    let (done, l) := fundFrom symbol.base symbol.quote amount (max c.numUsers.toNat 1) 1 l
    (done.map .ok, l)

end Generator

end Bourse
