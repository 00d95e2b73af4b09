/-!
# UTF-8

Decoding a sequence of bytes character by character. A byte that cannot start a character, and the
longest start of a character that does not go on, count as one damaged place each.
-/

namespace Bourse.Text

/-- A character that has been started: how many bytes are missing, the range of the next one, and
the bits read so far. -/
structure PartialChar where
  missing : Nat
  lo : Nat
  hi : Nat
  bits : Nat

/-- What a byte at the start of a character means. -/
inductive LeadByte where
  | whole (c : Char)
  | start (p : PartialChar)
  | damaged

/-- Tells what a byte at the start of a character means. The ranges of the second byte leave out
overlong forms, surrogates and numbers beyond the last character. -/
def leadByte (b : Nat) : LeadByte :=
  if b < 0x80 then .whole (Char.ofNat b)
  else if 0xC2 ≤ b ∧ b ≤ 0xDF then .start ⟨1, 0x80, 0xBF, b - 0xC0⟩
  else if b = 0xE0 then .start ⟨2, 0xA0, 0xBF, 0⟩
  else if b = 0xED then .start ⟨2, 0x80, 0x9F, 0xD⟩
  else if 0xE1 ≤ b ∧ b ≤ 0xEF then .start ⟨2, 0x80, 0xBF, b - 0xE0⟩
  else if b = 0xF0 then .start ⟨3, 0x90, 0xBF, 0⟩
  else if 0xF1 ≤ b ∧ b ≤ 0xF3 then .start ⟨3, 0x80, 0xBF, b - 0xF0⟩
  else if b = 0xF4 then .start ⟨3, 0x80, 0x8F, 4⟩
  else .damaged

/-- The characters of a sequence of bytes, with `none` for each damaged place. A character may have
been started before. -/
def decodeFrom : Option PartialChar → List UInt8 → List (Option Char)
  | none, [] => []
  | some _, [] => [none]
  | started, b :: bs =>
    let restart :=
      match leadByte b.toNat with
      | .whole c => some c :: decodeFrom none bs
      | .start p => decodeFrom (some p) bs
      | .damaged => none :: decodeFrom none bs
    match started with
    | none => restart
    | some p =>
      if p.lo ≤ b.toNat ∧ b.toNat ≤ p.hi then
        let bits := p.bits * 64 + (b.toNat - 0x80)
        if p.missing ≤ 1 then some (Char.ofNat bits) :: decodeFrom none bs
        else decodeFrom (some ⟨p.missing - 1, 0x80, 0xBF, bits⟩) bs
      else none :: restart

/-- The characters of a sequence of bytes, if none of them is damaged. -/
def decode? (bs : List UInt8) : Option String :=
  ((decodeFrom none bs).mapM id).map String.ofList

/-- The characters of a sequence of bytes, with the replacement character for damaged places. -/
def decodeLossy (bs : List UInt8) : String :=
  String.ofList ((decodeFrom none bs).map (·.getD '\uFFFD'))

def encode (s : String) : List UInt8 :=
  s.toUTF8.toList

end Bourse.Text
