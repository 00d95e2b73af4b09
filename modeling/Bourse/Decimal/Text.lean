import Bourse.Decimal
import Bourse.Text.Whole

/-!
# The text of decimal numbers

A number is written in plain notation with exactly as many fraction digits as its scale.

Reading accepts more than writing produces: a sign, digits with at most one point, and underscores
after the first digit. Digits that no longer fit behind the point are dropped, and the first of them
decides the rounding. A text that is no plain number may still be one times a power of ten, with an
exponent of at most 28 in magnitude.

A zero in plain notation loses its sign. A negative number that becomes zero because a power of ten
leaves no room for its digits keeps it.
-/

namespace Bourse.Decimal

/-- The digits of a number in plain notation, `scale` of them after the point. -/
def plainDigits (n scale : Nat) : List Char :=
  let ds := Nat.toDigits 10 n
  let padded := List.replicate (scale + 1 - ds.length) '0' ++ ds
  let whole := padded.take (padded.length - scale)
  if scale = 0 then whole else whole ++ '.' :: padded.drop (padded.length - scale)

/-- The number in plain notation. -/
def toText (a : Decimal) : String :=
  let ds := plainDigits a.coefficient a.scale
  String.ofList (if a.negative then '-' :: ds else ds)

/-- Whether the characters after the last place kept are digits or underscores. -/
def isIgnorable (cs : List Char) : Bool :=
  cs.all fun c => c == '_' || Text.isDigit c

/-- One more unit in the last place. When the coefficient runs over, the last place is given up. -/
def roundedUp? (coefficient scale : Nat) : Option (Nat × Nat) :=
  if coefficient + 1 < bound then some (coefficient + 1, scale)
  else if scale = 0 then none
  else some ((coefficient + 5) / 10, scale - 1)

/-- A numeral is short if its coefficient was below this number before its last digit was read. An
underscore behind the last place of a short numeral drops all that follows. Behind a longer one the
next digit still decides the rounding. -/
def shortBound : Nat := (UInt64.size - 1) / 10 - 255

/-- Reads the rest of an unsigned numeral after `coefficient` and `scale` have been read.
`inFraction` says whether the point has passed and `started` whether a digit has. -/
def readRest? (coefficient scale : Nat) (inFraction started : Bool) :
    List Char → Option (Nat × Nat)
  | [] => if started then some (coefficient, scale) else none
  | c :: rest =>
    if c = '_' then
      if !started then none
      else if inFraction && scale == 28 && decide (coefficient / 10 < shortBound) then
        if isIgnorable rest then some (coefficient, scale) else none
      else readRest? coefficient scale inFraction started rest
    else if c = '.' then
      if inFraction then none else readRest? coefficient scale true started rest
    else
      match Text.digit? c with
      | none => none
      | some d =>
        if 10 * coefficient + d < bound ∧ ¬(inFraction ∧ scale = 28) then
          readRest? (10 * coefficient + d) (if inFraction then scale + 1 else scale) inFraction
            true rest
        else if !inFraction || !isIgnorable rest then none
        else if 5 ≤ d then roundedUp? coefficient scale
        else some (coefficient, scale)

/-- The number with a given sign, coefficient and scale, if it is in range. -/
def ofParts? (negative : Bool) (coefficient scale : Nat) : Option Decimal :=
  if h : coefficient < bound ∧ scale ≤ 28 then some ⟨negative, coefficient, scale, h.1, h.2⟩
  else none

/-- Takes the sign off the front of a numeral. -/
def splitSign : List Char → Bool × List Char
  | '-' :: cs => (true, cs)
  | '+' :: cs => (false, cs)
  | cs => (false, cs)

/-- Reads plain notation. A zero has no minus sign. -/
def readPlain? (cs : List Char) : Option Decimal :=
  let (negative, digits) := splitSign cs
  (readRest? 0 0 false false digits).bind fun (coefficient, scale) =>
    (ofParts? negative coefficient scale).map unsignedZero

/-- Reads the digits of an exponent, which may have a plus sign in front. -/
def readExponent? (cs : List Char) : Option Nat :=
  Text.whole? UInt32.size cs

/-- The number at a smaller scale; the first digit dropped decides, a five away from zero. -/
def reduced (n scale target : Nat) : Nat :=
  let p := pow10 (scale - target)
  if p ≤ 2 * (n % p) then n / p + 1 else n / p

/-- The number divided by `10 ^ e`, as far as the largest scale has room. -/
def shiftedDown? (a : Decimal) (e : Nat) : Option Decimal :=
  if 28 < e then none
  else if a.scale + e ≤ 28 then ofParts? a.negative a.coefficient (a.scale + e)
  else ofParts? a.negative (reduced a.coefficient a.scale (28 - e)) 28

/-- The number times `10 ^ e`. -/
def shiftedUp? (a : Decimal) (e : Nat) : Option Decimal :=
  if e ≤ a.scale then ofParts? a.negative a.coefficient (a.scale - e)
  else if 28 < e then none
  else ofParts? a.negative (a.coefficient * pow10 (e - a.scale)) 0

/-- Reads a plain number followed by `e` and an exponent. -/
def readScientific? (cs : List Char) : Option Decimal :=
  match cs.span fun c => c != 'e' && c != 'E' with
  | (_, []) => none
  | (base, _ :: exponent) =>
    (readPlain? base).bind fun a =>
      match exponent with
      | '-' :: digits => (readExponent? digits).bind a.shiftedDown?
      | digits => (readExponent? digits).bind a.shiftedUp?

/-- Reads a number in plain or scientific notation. -/
def ofText? (s : String) : Option Decimal :=
  match readPlain? s.toList with
  | some a => some a
  | none => readScientific? s.toList

end Bourse.Decimal
