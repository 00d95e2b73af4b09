import Bourse.Json
import Bourse.Text.Digit

/-!
# JSON string literals

A string literal is read into a list of units: a character stands for itself and a `\u` escape for
a 16-bit unit. Two units that form a surrogate pair stand for one character; half a pair makes the
literal unreadable. A control character in the literal ends the well-formed text.

Writing escapes the quote, the backslash and the control characters below `20`, and nothing else.
-/

namespace Bourse.Json

/-- The character that a one-letter escape stands for. -/
def escaped? (c : Char) : Option Nat :=
  match c with
  | '"' => some 0x22
  | '\\' => some 0x5C
  | '/' => some 0x2F
  | 'b' => some 0x08
  | 'f' => some 0x0C
  | 'n' => some 0x0A
  | 'r' => some 0x0D
  | 't' => some 0x09
  | _ => none

/-- Reads the units of a literal up to its closing quote. -/
def takeUnits? : List Char → Option (List Nat × List Char)
  | [] => none
  | '"' :: cs => some ([], cs)
  | '\\' :: 'u' :: a :: b :: c :: d :: cs => do
    let u ← Text.hexDigits? [a, b, c, d]
    let (us, rest) ← takeUnits? cs
    return (u :: us, rest)
  | '\\' :: c :: cs => do
    let u ← escaped? c
    let (us, rest) ← takeUnits? cs
    return (u :: us, rest)
  | c :: cs =>
    if c.toNat < 0x20 then none
    else do
      let (us, rest) ← takeUnits? cs
      return (c.toNat :: us, rest)

/-- The characters of a list of units, unless half a surrogate pair is among them. -/
def pairUnits? : List Nat → Option (List Char)
  | [] => some []
  | u :: us =>
    if 0xD800 ≤ u ∧ u < 0xDC00 then
      match us with
      | v :: vs =>
        if 0xDC00 ≤ v ∧ v < 0xE000 then
          (pairUnits? vs).map (Char.ofNat (0x10000 + 1024 * (u - 0xD800) + (v - 0xDC00)) :: ·)
        else none
      | [] => none
    else if 0xDC00 ≤ u ∧ u < 0xE000 then none
    else (pairUnits? us).map (Char.ofNat u :: ·)

/-- Reads a literal after its opening quote. The inner option is empty for half a pair. -/
def takeString? (cs : List Char) : Option (Option String × List Char) :=
  (takeUnits? cs).map fun (us, rest) => ((pairUnits? us).map String.ofList, rest)

/-- A character as it stands in a string literal. -/
def escapedChar (c : Char) : List Char :=
  match c with
  | '"' => ['\\', '"']
  | '\\' => ['\\', '\\']
  | '\x08' => ['\\', 'b']
  | '\x0c' => ['\\', 'f']
  | '\n' => ['\\', 'n']
  | '\r' => ['\\', 'r']
  | '\t' => ['\\', 't']
  | _ =>
    if c.toNat < 0x20 then
      ['\\', 'u', '0', '0', Nat.digitChar (c.toNat / 16), Nat.digitChar (c.toNat % 16)]
    else [c]

/-- The string literal of a text. -/
def writeString (s : String) : List Char :=
  '"' :: (s.toList.flatMap escapedChar ++ ['"'])

end Bourse.Json
