import Bourse.Binary64

/-!
# JSON values

The tree of a JSON text. A text is read as far as it is well formed, and the tree records where it
stops: a container may lack its end, and `broken` stands where a value should be and none can be
read. So a reader that walks the tree in text order meets a wrong shape and a wrong text in the
order in which they stand.

A literal may be well formed and yet have no value: a number beyond the largest finite one, or a
string with half a surrogate pair. It is harmless where nobody asks for the value.
-/

namespace Bourse

/-- A number: whole where the text has neither point nor exponent and 64 bits suffice. -/
inductive Number where
  | whole (n : Int)
  | real (x : Binary64)
  deriving DecidableEq

/-- A JSON value, as far as its text is well formed. -/
inductive Json where
  | null
  | bool (b : Bool)
  | number (n : Number)
  | string (s : String)
  /-- A well-formed number or string literal that denotes nothing. -/
  | unreadable
  /-- The items, and whether the closing bracket was reached. -/
  | array (items : List Json) (closed : Bool)
  /-- The members, and whether the closing brace was reached. A key may be unreadable. -/
  | object (members : List (Option String × Json)) (closed : Bool)
  /-- The text has no value here. -/
  | broken

namespace Json

/-- An array that is complete. -/
def list (items : List Json) : Json := .array items true

/-- An object with the given members. -/
def record (members : List (String × Json)) : Json :=
  .object (members.map fun (k, v) => (some k, v)) true

def nat (n : Nat) : Json := .number (.whole n)

/-- A value that may be missing, with `null` for none. -/
def option {α : Type} (write : α → Json) : Option α → Json
  | some a => write a
  | none => .null

end Json

end Bourse
