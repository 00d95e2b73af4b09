/-!
# Powers

The powers of two and of ten by which numbers are scaled.
-/

namespace Bourse

def pow2 (n : Nat) : Nat := Nat.pow 2 n

def pow10 (n : Nat) : Nat := Nat.pow 10 n

end Bourse
