import Bourse.Power

/-!
# Decimal numbers

Amounts, prices and rates are decimal numbers: a sign and a coefficient below `2 ^ 96`, over a power
of ten of at most 28. The scale is part of a number (`1.0` and `1` are different numbers of the same
value), because it is kept by every text form. So is the sign of a zero. Comparisons look at the
value alone, which is that of the mantissa: the coefficient with its sign.
-/

namespace Bourse

/-- The first number that is too large for a coefficient. -/
abbrev Decimal.bound : Nat := pow2 96

/-- The number `± coefficient / 10 ^ scale`. -/
structure Decimal where
  /-- Whether the number has a minus sign. -/
  negative : Bool
  /-- All digits of the number. -/
  coefficient : Nat
  /-- How many of the digits stand after the point. -/
  scale : Nat
  /-- The digits fit into 96 bits. -/
  coefficient_lt : coefficient < Decimal.bound
  /-- At most 28 digits stand after the point. -/
  scale_le : scale ≤ 28
  deriving DecidableEq

namespace Decimal

/-- The coefficient with the sign. -/
def mantissa (a : Decimal) : Int :=
  if a.negative then -(a.coefficient : Int) else a.coefficient

theorem natAbs_mantissa (a : Decimal) : a.mantissa.natAbs = a.coefficient := by
  unfold mantissa
  split <;> omega

/-- The number `m / 10 ^ s`. A zero has no minus sign. -/
def ofMantissa (m : Int) (s : Nat) (hm : m.natAbs < bound) (hs : s ≤ 28) : Decimal :=
  ⟨decide (m < 0), m.natAbs, s, hm, hs⟩

theorem mantissa_ofMantissa {m : Int} {s : Nat} (hm : m.natAbs < bound) (hs : s ≤ 28) :
    (ofMantissa m s hm hs).mantissa = m := by
  simp only [mantissa, ofMantissa, decide_eq_true_eq]
  split <;> omega

/-- A whole number, if it is in range. -/
def ofInt? (n : Int) : Option Decimal :=
  if h : n.natAbs < bound then some (ofMantissa n 0 h (by decide)) else none

/-- A whole number of 64 bits. -/
def ofWord (n : UInt64) : Decimal :=
  ⟨false, n.toNat, 0, by have := n.toNat_lt; simp only [bound, pow2, Nat.pow_eq]; omega,
    by decide⟩

/-- Zero at scale zero. -/
def zero : Decimal := ⟨false, 0, 0, by decide, by decide⟩

/-- One at scale zero. -/
def one : Decimal := ⟨false, 1, 0, by decide, by decide⟩

instance : Inhabited Decimal := ⟨zero⟩

/-- The number with the other sign. A zero keeps its own. -/
def neg (a : Decimal) : Decimal :=
  if a.coefficient = 0 then a else { a with negative := !a.negative }

/-- The mantissa that `a` has when it is written over the scales of both `a` and `b`. Two numbers
compare like these mantissas. -/
def scaledBy (a b : Decimal) : Int :=
  a.mantissa * pow10 b.scale

instance : LE Decimal := ⟨fun a b => a.scaledBy b ≤ b.scaledBy a⟩

instance : LT Decimal := ⟨fun a b => a.scaledBy b < b.scaledBy a⟩

instance (a b : Decimal) : Decidable (a ≤ b) :=
  inferInstanceAs (Decidable (a.scaledBy b ≤ b.scaledBy a))

instance (a b : Decimal) : Decidable (a < b) :=
  inferInstanceAs (Decidable (a.scaledBy b < b.scaledBy a))

/-- Equal as values, whatever the scales. -/
def SameValue (a b : Decimal) : Prop :=
  a.scaledBy b = b.scaledBy a

instance (a b : Decimal) : Decidable (a.SameValue b) :=
  inferInstanceAs (Decidable (a.scaledBy b = b.scaledBy a))

/-- The order of values, whatever the scales. -/
def cmp (a b : Decimal) : Ordering :=
  compare (a.scaledBy b) (b.scaledBy a)

/-- Zero at any scale and of either sign. -/
def isZero (a : Decimal) : Bool :=
  a.coefficient == 0

/-- The number, without the minus sign if it is zero. -/
def unsignedZero (a : Decimal) : Decimal :=
  { a with negative := a.negative && !a.isZero }

/-- Above zero. -/
def isPos (a : Decimal) : Bool :=
  0 < a.mantissa

/-- Below zero. -/
def isNeg (a : Decimal) : Bool :=
  a.mantissa < 0

/-- The smaller number, the first of two equal ones. -/
def min (a b : Decimal) : Decimal :=
  if b < a then b else a

/-- The larger number, the first of two equal ones. -/
def max (a b : Decimal) : Decimal :=
  if a < b then b else a

end Decimal

end Bourse
