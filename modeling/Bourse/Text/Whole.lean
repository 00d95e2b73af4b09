import Bourse.Text.Digit

/-!
# Whole numbers in words of the input

Counts, ports and user numbers are typed as decimal digits, with an optional plus sign in front. A
number that its type has no room for is not read.
-/

namespace Bourse.Text

/-- The number that is typed, if it is below the bound. -/
def whole? (bound : Nat) (cs : List Char) : Option Nat :=
  let digits := match cs with
    | '+' :: rest => rest
    | _ => cs
  (digits? digits).filter (· < bound)

end Bourse.Text
