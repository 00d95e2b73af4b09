import Bourse.Text.Digit

/-!
# Universally unique identifiers

Orders and trades are named by 128-bit identifiers. An identifier is written as 32 hexadecimal
digits in lower case with hyphens behind the digits 8, 12, 16 and 20. Reading also takes capitals,
the bare 32 digits, and the hyphenated form in braces or behind `urn:uuid:` in letters of any case.
-/

namespace Bourse

/-- An identifier. -/
structure Uuid where
  value : BitVec 128
  deriving DecidableEq

namespace Uuid

/-- The identifier of a number, taken modulo `2 ^ 128`. -/
def ofNat (n : Nat) : Uuid := ⟨BitVec.ofNat 128 n⟩

/-- The identifier whose bits are all zero. -/
def nil : Uuid := ofNat 0

instance : Inhabited Uuid := ⟨nil⟩

/-- The identifier made of random bits. Six of its bits are fixed and say that the others are
random: the digit `4`, and `10` in front of the digit that begins the fourth group. -/
def ofRandomBits (n : Nat) : Uuid :=
  let free : BitVec 128 := 0xFFFFFFFFFFFF0FFF3FFFFFFFFFFFFFFF#128
  let fixed : BitVec 128 := 0x00000000000040008000000000000000#128
  ⟨(BitVec.ofNat 128 n &&& free) ||| fixed⟩

/-- The last `count` hexadecimal digits of a number, in lower case. -/
def hexDigits (n : Nat) : Nat → List Char
  | 0 => []
  | count + 1 => hexDigits (n / 16) count ++ [Nat.digitChar (n % 16)]

/-- The digits in groups, with hyphens between them. -/
def toText (u : Uuid) : String :=
  let ds := hexDigits u.value.toNat 32
  String.ofList (ds.take 8 ++ '-' :: ((ds.drop 8).take 4 ++ '-' :: ((ds.drop 12).take 4 ++
    '-' :: ((ds.drop 16).take 4 ++ '-' :: ds.drop 20))))

/-- Reads exactly 32 hexadecimal digits. -/
def ofDigits? (cs : List Char) : Option Uuid :=
  if cs.length = 32 then
    (Text.hexDigits? cs).map ofNat
  else none

/-- Reads 32 digits with hyphens at the four fixed places. -/
def ofHyphenated? (cs : List Char) : Option Uuid :=
  if cs[8]? = some '-' ∧ cs[13]? = some '-' ∧ cs[18]? = some '-' ∧ cs[23]? = some '-' then
    ofDigits? (cs.take 8 ++ (cs.drop 9).take 4 ++ (cs.drop 14).take 4 ++ (cs.drop 19).take 4 ++
      cs.drop 24)
  else none

/-- What may stand in front of the hyphenated form, in letters of any case. -/
def label : List Char := "urn:uuid:".toList

/-- Reads an identifier in any of its forms. -/
def ofChars? (cs : List Char) : Option Uuid :=
  if (cs.take label.length).map Char.toLower = label then ofHyphenated? (cs.drop label.length)
  else
    match cs with
    | '\x7b' :: rest =>
      if rest.getLast? = some '\x7d' then ofHyphenated? rest.dropLast else none
    | _ => if cs.length = 32 then ofDigits? cs else ofHyphenated? cs

/-- Reads an identifier in any of its forms. -/
def ofText? (s : String) : Option Uuid :=
  ofChars? s.toList

end Uuid

end Bourse
