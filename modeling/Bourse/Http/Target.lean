import Bourse.Text.Digit
import Bourse.Text.Split
import Bourse.Text.Utf8

/-!
# Request targets

The target of a request is a path and a query. A scheme, which may be empty, and a host may stand in
front of them. Path and query may hold percent escapes. A path parameter must come out as
well-formed text. A query is a list of names and values in form notation, where a plus sign stands
for a blank and damaged places become the replacement character.
-/

namespace Bourse.Http

/-- The byte of two hexadecimal digits, which are bytes themselves. -/
def escapedByte? (a b : UInt8) : Option UInt8 :=
  (Text.hexDigits? [Char.ofNat a.toNat, Char.ofNat b.toNat]).map UInt8.ofNat

/-- Bytes with their percent escapes resolved. An escape without two digits stands for itself. -/
def percentDecode : List UInt8 → List UInt8
  | 37 :: a :: b :: rest =>
    match escapedByte? a b with
    | some byte => byte :: percentDecode rest
    | none => 37 :: percentDecode (a :: b :: rest)
  | b :: rest => b :: percentDecode rest
  | [] => []

/-- The text of a path parameter. -/
def decodeParameter? (s : String) : Option String :=
  Text.decode? (percentDecode (Text.encode s))

/-- The text of a name or a value in form notation. -/
def decodeForm (cs : List Char) : String :=
  Text.decodeLossy (percentDecode ((Text.encode (String.ofList cs)).map fun b =>
    if b = 43 then 32 else b))

/-- The names and values of a query. -/
def queryPairs (query : List Char) : List (String × String) :=
  ((Text.split '&' query).filter (!·.isEmpty)).map fun part =>
    let (name, value) := Text.splitOnce '=' part
    (decodeForm name, decodeForm (value.getD []))

/-- What a request is about. -/
structure Target where
  /-- The parts of the path between the slashes. -/
  segments : List String
  query : List (String × String)

def isSchemeChar (c : Char) : Bool :=
  c.isAlphanum || c == '+' || c == '-' || c == '.'

/-- What follows the scheme and the host of a target, if it has them. -/
def dropHost (cs : List Char) : List Char :=
  match cs.span isSchemeChar with
  | (_, ':' :: '/' :: '/' :: rest) => rest.dropWhile fun c => c != '/' && c != '?' && c != '#'
  | _ => cs

/-- The path and the query of a target. A fragment is left aside. -/
def Target.ofText (uri : String) : Target :=
  let (cs, _) := Text.splitOnce '#' (dropHost uri.toList)
  let (path, query) := Text.splitOnce '?' cs
  ⟨(Text.split '/' path).map String.ofList, queryPairs (query.getD [])⟩

end Bourse.Http
