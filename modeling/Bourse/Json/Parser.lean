import Bourse.Json.Literal
import Bourse.Json.Numeral

/-!
# Reading JSON text

The parser never fails: it returns the tree of the longest well-formed part, together with the text
behind the value if the value is complete. Blanks are the four that JSON knows. Nesting is bounded
by the length of the text alone, so the recursion runs on a count that starts above it.
-/

namespace Bourse.Json

/-- The blanks between JSON tokens. -/
def isSpace (c : Char) : Bool :=
  c == ' ' || c == '\n' || c == '\t' || c == '\r'

/-- The text without the blanks in front of it. -/
def skipSpace (cs : List Char) : List Char :=
  cs.dropWhile isSpace

/-- Takes a fixed word off the front of a text. -/
def takeWord? : List Char → List Char → Option (List Char)
  | [], cs => some cs
  | w :: ws, c :: cs => if w = c then takeWord? ws cs else none
  | _ :: _, [] => none

/-- A value that a fixed word stands for. -/
def takeConstant (word : String) (value : Json) (cs : List Char) : Json × Option (List Char) :=
  match takeWord? word.toList cs with
  | some rest => (value, some rest)
  | none => (.broken, none)

/-- A number at the front of a text. -/
def takeNumber (cs : List Char) : Json × Option (List Char) :=
  match takeNumeral? cs with
  | none => (.broken, none)
  | some (v, rest) =>
    match v.value? with
    | some n => (.number n, some rest)
    | none => (.unreadable, some rest)

/-- A string at the front of a text, after its opening quote. -/
def takeText (cs : List Char) : Json × Option (List Char) :=
  match takeString? cs with
  | none => (.broken, none)
  | some (some s, rest) => (.string s, some rest)
  | some (none, rest) => (.unreadable, some rest)

mutual

/-- The value at the front of a text, and what follows it if it is complete. -/
def takeValue : Nat → List Char → Json × Option (List Char)
  | 0, _ => (.broken, none)
  | fuel + 1, cs =>
    match skipSpace cs with
    | [] => (.broken, none)
    | '[' :: cs =>
      match skipSpace cs with
      | ']' :: rest => (.array [] true, some rest)
      | cs =>
        let (items, rest) := takeItems fuel cs
        (.array items rest.isSome, rest)
    | '{' :: cs =>
      match skipSpace cs with
      | '}' :: rest => (.object [] true, some rest)
      | cs =>
        let (members, rest) := takeMembers fuel cs
        (.object members rest.isSome, rest)
    | '"' :: cs => takeText cs
    | 'n' :: cs => takeConstant "ull" .null cs
    | 't' :: cs => takeConstant "rue" (.bool true) cs
    | 'f' :: cs => takeConstant "alse" (.bool false) cs
    | cs => takeNumber cs

/-- The items of an array from its first one on, and what follows the closing bracket. -/
def takeItems : Nat → List Char → List Json × Option (List Char)
  | 0, _ => ([], none)
  | fuel + 1, cs =>
    match takeValue fuel cs with
    | (item, none) => ([item], none)
    | (item, some cs) =>
      match skipSpace cs with
      | ']' :: rest => ([item], some rest)
      | ',' :: cs =>
        let (items, rest) := takeItems fuel cs
        (item :: items, rest)
      | _ => ([item], none)

/-- The members of an object from its first one on, and what follows the closing brace. -/
def takeMembers : Nat → List Char → List (Option String × Json) × Option (List Char)
  | 0, _ => ([], none)
  | fuel + 1, cs =>
    match skipSpace cs with
    | '"' :: cs =>
      match takeString? cs with
      | none => ([], none)
      | some (key, cs) =>
        match skipSpace cs with
        | ':' :: cs =>
          match takeValue fuel cs with
          | (value, none) => ([(key, value)], none)
          | (value, some cs) =>
            match skipSpace cs with
            | '}' :: rest => ([(key, value)], some rest)
            | ',' :: cs =>
              let (members, rest) := takeMembers fuel cs
              ((key, value) :: members, rest)
            | _ => ([(key, value)], none)
        | _ => ([(key, .broken)], none)
    | _ => ([], none)

end

/-- The first value of a text, and the text behind it if the value is complete. -/
def parse (s : String) : Json × Option String :=
  let cs := s.toList
  let (value, rest) := takeValue (2 * cs.length + 2) cs
  (value, rest.map String.ofList)

/-- Whether nothing but blanks follows a value. -/
def isEnd : Option String → Bool
  | some rest => rest.toList.all isSpace
  | none => false

end Bourse.Json
