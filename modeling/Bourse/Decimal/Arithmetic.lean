import Bourse.Decimal

/-!
# Decimal arithmetic

Sums, differences and products are computed exactly and then brought into range. Where the exact
result has too many digits, the fewest possible are dropped from its end, with one rounding to
nearest that takes a tie to the even neighbour. A result whose whole part alone is out of range
overflows.

A zero operand is special: adding it leaves the other operand with its own scale, and a product
with it is the plain zero. Other numbers whose sum is zero give a zero without a minus sign.

A product may be so small that no digit of it is left. Then it is a zero at the largest scale, which
still has the sign of the product if one of the factors is long. Short factors give a zero without
a minus sign, and the plain zero if there are too many digits behind the point to drop.
-/

namespace Bourse

/-- The operation whose exact result has no decimal number near it. -/
inductive Overflow where
  | addition
  | subtraction
  | multiplication
  deriving DecidableEq

def Overflow.message : Overflow → String
  | .addition => "Addition overflowed"
  | .subtraction => "Subtraction overflowed"
  | .multiplication => "Multiplication overflowed"

/-- What comes of arithmetic that may overflow. -/
abbrev Checked := Except Overflow

namespace Decimal

/-- The quotient of two natural numbers rounded to nearest, a tie to the even neighbour. -/
def divHalfEven (n d : Nat) : Nat :=
  if d < 2 * (n % d) ∨ (2 * (n % d) = d ∧ n / d % 2 = 1) then n / d + 1 else n / d

/-- `± n / 10 ^ s` as a number of scale `t`, rounded. -/
def atScale? (negative : Bool) (n s t : Nat) : Option Decimal :=
  let q := divHalfEven n (pow10 (s - t))
  if h : q < bound ∧ t ≤ 28 then some ⟨negative, q, t, h.1, h.2⟩ else none

/-- `± n / 10 ^ s` at the largest scale, `t` or below, that has room for it. -/
def fitBelow? (negative : Bool) (n s : Nat) : Nat → Option Decimal
  | 0 => atScale? negative n s 0
  | t + 1 =>
    match atScale? negative n s (t + 1) with
    | some a => some a
    | none => fitBelow? negative n s t

/-- `± n / 10 ^ s` with as many of its digits as there is room for. -/
def fit? (negative : Bool) (n s : Nat) : Option Decimal :=
  fitBelow? negative n s (Nat.min s 28)

/-- The exact sum over the larger scale, if there is room for it. -/
def add? (a b : Decimal) : Option Decimal :=
  if a.isZero then some b
  else if b.isZero then some a
  else
    let s := Nat.max a.scale b.scale
    let sum := a.mantissa * pow10 (s - a.scale) + b.mantissa * pow10 (s - b.scale)
    fit? (sum < 0) sum.natAbs s

/-- The rounded sum, or an overflow. -/
def add (a b : Decimal) : Checked Decimal :=
  match add? a b with
  | some c => .ok c
  | none => .error .addition

/-- The rounded difference, or an overflow. -/
def sub (a b : Decimal) : Checked Decimal :=
  match add? a b.neg with
  | some c => .ok c
  | none => .error .subtraction

/-- A number is short if its coefficient fits into 32 bits. -/
def isShort (a : Decimal) : Bool :=
  a.coefficient < UInt32.size

/-- The largest scale that the exact product of two short factors may have. The digits of one of a
larger scale are not looked at. -/
def shortProductScale : Nat := 47

/-- The product of two numbers, if there is room for it. -/
def mul? (a b : Decimal) : Option Decimal :=
  if a.isZero || b.isZero then some zero
  else
    let scale := a.scale + b.scale
    let product := fit? (a.negative != b.negative) (a.coefficient * b.coefficient) scale
    if a.isShort && b.isShort then
      if shortProductScale < scale then some zero else product.map unsignedZero
    else product

/-- The rounded product, or an overflow. -/
def mul (a b : Decimal) : Checked Decimal :=
  match mul? a b with
  | some c => .ok c
  | none => .error .multiplication

end Decimal

end Bourse
