import Bourse.Json
import Bourse.Text.Digit

/-!
# JSON number literals

A literal is split into its digits first. Its value keeps the digits as a 64-bit whole number for
as long as they fit; further digits only count towards the power of ten. Without point and exponent
a whole number that fits stays whole; everything else becomes a binary64 number.
-/

namespace Bourse.Json

/-- A number literal, split into its parts. -/
structure Numeral where
  negative : Bool
  whole : List Nat
  fraction : List Nat
  /-- The exponent's sign, true for minus, and digits. -/
  exponent : Option (Bool × List Nat)

/-- Takes the digits off the front of a text. -/
def takeDigits : List Char → List Nat × List Char
  | [] => ([], [])
  | c :: cs =>
    match Text.digit? c with
    | none => ([], c :: cs)
    | some d => let (ds, rest) := takeDigits cs; (d :: ds, rest)

/-- Reads the digits before the point: a lone zero, or digits that start with another one. -/
def takeWhole? (cs : List Char) : Option (List Nat × List Char) :=
  match takeDigits cs with
  | ([], _) => none
  | (0 :: _ :: _, _) => none
  | (ds, rest) => some (ds, rest)

/-- Reads a point and the digits behind it, if there is a point. -/
def takeFraction? : List Char → Option (List Nat × List Char)
  | '.' :: cs =>
    match takeDigits cs with
    | ([], _) => none
    | (ds, rest) => some (ds, rest)
  | cs => some ([], cs)

/-- Reads the digits of an exponent, at least one. -/
def takeExponentDigits? (negative : Bool) (cs : List Char) :
    Option (Option (Bool × List Nat) × List Char) :=
  match takeDigits cs with
  | ([], _) => none
  | (ds, rest) => some (some (negative, ds), rest)

/-- Reads an exponent, if there is one. -/
def takeExponent? : List Char → Option (Option (Bool × List Nat) × List Char)
  | c :: cs =>
    if c = 'e' ∨ c = 'E' then
      match cs with
      | '+' :: rest => takeExponentDigits? false rest
      | '-' :: rest => takeExponentDigits? true rest
      | rest => takeExponentDigits? false rest
    else some (none, c :: cs)
  | [] => some (none, [])

/-- Reads a literal without its sign. -/
def takeUnsigned? (negative : Bool) (cs : List Char) : Option (Numeral × List Char) := do
  let (whole, cs) ← takeWhole? cs
  let (fraction, cs) ← takeFraction? cs
  let (exponent, cs) ← takeExponent? cs
  return (⟨negative, whole, fraction, exponent⟩, cs)

/-- Reads a literal with its sign. -/
def takeNumeral? : List Char → Option (Numeral × List Char)
  | '-' :: cs => takeUnsigned? true cs
  | cs => takeUnsigned? false cs

/-- The largest number that 64 bits hold. -/
def maxWord : Nat := UInt64.size - 1

/-- Appends whole digits to a number while it fits into 64 bits, and counts the digits left. -/
def appendWhole (n : Nat) : List Nat → Nat × Int
  | [] => (n, 0)
  | d :: ds => if 10 * n + d ≤ maxWord then appendWhole (10 * n + d) ds else (n, ds.length + 1)

/-- Appends fraction digits while they fit, and lowers the power of ten with each. -/
def appendFraction (n : Nat) (e : Int) : List Nat → Nat × Int
  | [] => (n, e)
  | d :: ds => if 10 * n + d ≤ maxWord then appendFraction (10 * n + d) (e - 1) ds else (n, e)

namespace Numeral

/-- The largest exponent that is not taken for infinitely large. -/
def maxExponent : Nat := pow2 31 - 1

/-- The number with its sign, a binary64 zero included. -/
def signed (v : Numeral) (x : Binary64) : Number :=
  .real (if v.negative then x.neg else x)

/-- The literal as a binary64 number, from its leading digits `n` and their power of ten `e`. -/
def real? (v : Numeral) (n : Nat) (e : Int) : Option Number :=
  let scaled := fun (e : Int) =>
    ((Binary64.ofRatio? n 1).bind fun x => x.timesPowerOfTen? e).map v.signed
  match v.exponent with
  | none => scaled e
  | some (minus, ds) =>
    let k := ds.foldl (fun n d => 10 * n + d) 0
    if maxExponent < k then
      if n ≠ 0 ∧ !minus then none else some (v.signed Binary64.zero)
    else scaled (if minus then e - k else e + k)

/-- The value of a literal, unless it is beyond the largest finite number. -/
def value? (v : Numeral) : Option Number :=
  let (n, left) := appendWhole 0 v.whole
  if v.fraction.isEmpty ∧ v.exponent.isNone ∧ left = 0 then
    if !v.negative then some (.whole n)
    else if n ≠ 0 ∧ n ≤ pow2 63 then some (.whole (-n))
    else v.real? n 0
  else
    let (n, e) := appendFraction n left v.fraction
    v.real? n e

end Numeral

end Bourse.Json
