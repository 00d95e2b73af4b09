import Bourse.Power

/-!
# Binary floating point numbers

A number with a point or an exponent in a JSON text stands for a finite binary64 number:
`significand * 2 ^ exponent` with a significand below `2 ^ 53`. This module rounds ratios of
natural numbers to that format and finds the shortest decimal numeral that reads back as a given
number. Everything is exact arithmetic on natural numbers.
-/

namespace Bourse

/-- The finite number `± significand * 2 ^ exponent`. -/
structure Binary64 where
  negative : Bool
  significand : Nat
  exponent : Int
  deriving DecidableEq

namespace Binary64

/-- The exponent of the smallest numbers. -/
def minExponent : Int := -1074

/-- The exponent of the largest finite numbers. -/
def maxExponent : Int := 971

def zero : Binary64 := ⟨false, 0, minExponent⟩

/-- The number with the other sign. -/
def neg (x : Binary64) : Binary64 := { x with negative := !x.negative }

/-- The quotient rounded to nearest, a tie to the even neighbour. -/
def nearest (n d : Nat) : Nat :=
  if d < 2 * (n % d) ∨ (2 * (n % d) = d ∧ n / d % 2 = 1) then n / d + 1 else n / d

/-- The largest `k` with `2 ^ k ≤ n / d`. -/
def floorLog2 (n d : Nat) : Int :=
  let k : Int := (n.log2 : Int) - d.log2
  if n * pow2 (-k).toNat < d * pow2 k.toNat then k - 1 else k

/-- The number nearest to `n / d`, unless it is beyond the largest finite one. -/
def ofRatio? (n d : Nat) : Option Binary64 :=
  if n = 0 then some zero
  else
    let e := Max.max minExponent (floorLog2 n d - 52)
    let m := nearest (n * pow2 (-e).toNat) (d * pow2 e.toNat)
    let (m, e) := if m = pow2 53 then (pow2 52, e + 1) else (m, e)
    if maxExponent < e then none else some ⟨false, m, e⟩

/-- The magnitude as a numerator. -/
def num (x : Binary64) : Nat := x.significand * pow2 x.exponent.toNat

/-- The magnitude as a denominator. -/
def den (x : Binary64) : Nat := pow2 (-x.exponent).toNat

/-- The rounded product of two magnitudes. -/
def mul? (x y : Binary64) : Option Binary64 := ofRatio? (x.num * y.num) (x.den * y.den)

/-- The rounded quotient of two magnitudes, for a divisor that is not zero. -/
def div? (x y : Binary64) : Option Binary64 := ofRatio? (x.num * y.den) (x.den * y.num)

/-- The power of ten nearest to `10 ^ k`, for `k` up to 308. -/
def powerOfTen (k : Nat) : Binary64 := (ofRatio? (pow10 k) 1).getD zero

/-- Scales a magnitude by `10 ^ e`: one rounded multiplication or division, after as many divisions
by `10 ^ 308` as a very small exponent needs. -/
def timesPowerOfTen? (x : Binary64) (e : Int) : Option Binary64 :=
  if 0 ≤ e then
    if e ≤ 308 then mul? x (powerOfTen e.toNat)
    else if x.significand = 0 then some zero else none
  else if -308 ≤ e then div? x (powerOfTen (-e).toNat)
  else if x.significand = 0 then some zero
  else (div? x (powerOfTen 308)).bind fun y =>
    if -616 ≤ e then div? y (powerOfTen (-e - 308).toNat)
    else some zero

/-- The least `j` from the given one on with `d ≤ n * pow10 j`, looked for in `fuel` steps. -/
def leastShift (n d : Nat) : Nat → Nat → Nat
  | 0, j => j
  | fuel + 1, j => if d ≤ n * pow10 j then j else leastShift n d fuel (j + 1)

/-- The largest `k` with `10 ^ k ≤ n / d`, for a ratio of the format's range. -/
def floorLog10 (n d : Nat) : Int :=
  if d ≤ n then ((Nat.toDigits 10 (n / d)).length : Int) - 1
  else -(leastShift n d 400 1 : Int)

/-- Which of two numerals of the same length is taken when both are equally near. -/
inductive Tie where
  /-- The one whose last digit is even. -/
  | even
  /-- The one of larger magnitude. -/
  | up
  deriving DecidableEq

/-- Of the two neighbours of the magnitude that are multiples of `10 ^ k`, the nearer one that
rounds to it. -/
def neighbour? (tie : Tie) (x : Binary64) (k : Int) : Option Nat :=
  -- all four quantities are multiples of a quarter of a unit in the last place
  let quarter := fun (n : Nat) => n * pow2 x.exponent.toNat * pow10 (-k).toNat
  let unit := 4 * pow2 (-x.exponent).toNat * pow10 k.toNat
  let v := quarter (4 * x.significand)
  let below := if x.significand = pow2 52 ∧ minExponent < x.exponent then 1 else 2
  let low := quarter (4 * x.significand - below)
  let high := quarter (4 * x.significand + 2)
  let inside := fun (c : Nat) =>
    if x.significand % 2 = 0 then low ≤ c * unit && c * unit ≤ high
    else low < c * unit && c * unit < high
  let a := v / unit
  match inside a, inside (a + 1) with
  | true, true =>
    let takesBelow := 2 * (v % unit) < unit ∨ (2 * (v % unit) = unit ∧ tie = .even ∧ a % 2 = 0)
    some (if takesBelow then a else a + 1)
  | true, false => some a
  | false, true => some (a + 1)
  | false, false => none

/-- The first of the lengths from `17 - fuel` on at which a decimal numeral rounds to the
magnitude. -/
def shortestFrom (tie : Tie) (x : Binary64) (top : Int) : Nat → Nat × Int
  | 0 => (x.num / x.den, 0)
  | fuel + 1 =>
    let k := top - (16 - fuel : Nat)
    match neighbour? tie x k with
    | some c => (c, k)
    | none => shortestFrom tie x top fuel

/-- Drops the zeros at the end of a numeral. -/
def stripZeros (c : Nat) (k : Int) : Nat → Nat × Int
  | 0 => (c, k)
  | fuel + 1 => if c % 10 = 0 ∧ c ≠ 0 then stripZeros (c / 10) (k + 1) fuel else (c, k)

/-- The shortest decimal `c * 10 ^ k` that rounds to the magnitude, the nearest of that length. -/
def shortest (tie : Tie) (x : Binary64) : Nat × Int :=
  if x.significand = 0 then (0, 0)
  else
    let (c, k) := shortestFrom tie x (floorLog10 x.num x.den) 17
    stripZeros c k 20

/-- A minus sign for a number below zero. -/
def sign (x : Binary64) : List Char := if x.negative then ['-'] else []

/-- The digits with a point so that `digits * 10 ^ k` is meant, for `k < 0`. -/
def withPoint (digits : List Char) (places : Nat) : List Char :=
  let padded := List.replicate (places + 1 - digits.length) '0' ++ digits
  padded.take (padded.length - places) ++ '.' :: padded.drop (padded.length - places)

/-- The shortest numeral in positional notation. A tie goes up. -/
def plainText (x : Binary64) : String :=
  let (c, k) := x.shortest .up
  let digits := Nat.toDigits 10 c
  String.ofList <| x.sign ++
    (if k < 0 then withPoint digits (-k).toNat else digits ++ List.replicate k.toNat '0')

/-- The shortest numeral as JSON text: positional with a point for exponents from -5 to 15, and
otherwise with an exponent. A tie goes to the even digit. -/
def jsonText (x : Binary64) : String :=
  let (c, k) := x.shortest .even
  let digits := Nat.toDigits 10 c
  let top : Int := k + digits.length
  String.ofList <| x.sign ++
    if c = 0 then ['0', '.', '0']
    else if 0 ≤ k ∧ top ≤ 16 then digits ++ List.replicate k.toNat '0' ++ ['.', '0']
    else if -5 < top ∧ top ≤ 16 then withPoint digits (-k).toNat
    else
      let mantissa := match digits with
        | [d] => [d]
        | d :: rest => d :: '.' :: rest
        | [] => []
      mantissa ++ 'e' :: (toString (top - 1)).toList

end Binary64

end Bourse
