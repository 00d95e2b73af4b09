import Bourse.Json.Parser

/-!
# Reading values out of JSON

A reader looks for a value of a given shape. It fails in one of two ways: the text is `malformed`
at a place where the reader looks, or it is well formed there and of another shape.

A record is read from an object or from an array of its fields in declaration order. In an object
the members are met in text order: an unknown key is passed over, and a key that comes twice is a
fault of shape. An array must hold the fields and nothing else; only fields with a default may be
missing at its end. The description of a record is an applicative combination of its fields, so a
record type is read by applying its constructor to them.
-/

namespace Bourse.Json

/-- Why a value cannot be read. -/
inductive Flaw where
  /-- The text is no JSON at a place where a value is asked for. -/
  | malformed
  /-- The value is of another shape. -/
  | mismatched
  deriving DecidableEq

/-- A function that looks for a value of one shape. -/
abbrev Reader (α : Type) := Json → Except Flaw α

/-- What is wrong with a value that does not have the shape asked for. -/
def flaw : Json → Flaw
  | .broken => .malformed
  | .unreadable => .malformed
  | _ => .mismatched

namespace Reader

/-- Reads a value by a reader and a partial conversion. -/
def convert {α β : Type} (r : Reader α) (f : α → Option β) : Reader β := fun j => do
  match f (← r j) with
  | some b => return b
  | none => throw .mismatched

def string : Reader String
  | .string s => .ok s
  | j => .error j.flaw

def bool : Reader Bool
  | .bool b => .ok b
  | j => .error j.flaw

def int : Reader Int
  | .number (.whole n) => .ok n
  | j => .error j.flaw

/-- A whole number from 0 up to the bound, which is out of range. -/
def below (bound : Nat) : Reader Nat :=
  int.convert fun n => if 0 ≤ n ∧ n < bound then some n.toNat else none

/-- A whole number of 64 bits without sign. -/
def word : Reader UInt64 :=
  convert (below UInt64.size) fun n => some (UInt64.ofNat n)

/-- A whole number of 32 bits without sign. -/
def halfWord : Reader UInt32 :=
  convert (below UInt32.size) fun n => some (UInt32.ofNat n)

/-- Any number, rounded if it is whole. -/
def real : Reader Binary64
  | .number (.real x) => .ok x
  | .number (.whole n) =>
    match Binary64.ofRatio? n.natAbs 1 with
    | some x => .ok (if n < 0 then x.neg else x)
    | none => .error .mismatched
  | j => .error j.flaw

/-- A value or `null`. -/
def option {α : Type} (r : Reader α) : Reader (Option α)
  | .null => .ok none
  | j => some <$> r j

def list {α : Type} (r : Reader α) : Reader (List α)
  | .array items closed => do
    let values ← items.mapM r
    if closed then return values else throw .malformed
  | j => .error j.flaw

/-- One of a few named values: a string with the name, or an object whose one key is the name and
whose value is `null`. Nothing else may even begin here. -/
def oneOf {α : Type} (names : List (String × α)) : Reader α
  | .string s =>
    match names.lookup s with
    | some a => .ok a
    | none => .error .mismatched
  | .object ((some s, value) :: more) closed =>
    match names.lookup s, value with
    | none, _ => .error .mismatched
    | some a, .null => if more.isEmpty && closed then .ok a else .error .malformed
    | some _, value => .error value.flaw
  | _ => .error .malformed

end Reader

/-- One field of a record, as far as the members of an object are concerned. -/
structure Field where
  name : String
  /-- Whether a value is one for this field. -/
  check : Json → Except Flaw Unit
  /-- Whether the field may be missing at the end of an array. -/
  omittable : Bool

/-- A reader of records: the fields in declaration order, and how the record is built from the
values found for them. -/
structure RecordReader (α : Type) where
  fields : List Field
  build : (String → Option Json) → Except Flaw α

namespace RecordReader

variable {α β : Type}

/-- A field that has to be there. -/
def required (name : String) (r : Reader α) : RecordReader α where
  fields := [⟨name, fun j => discard (r j), false⟩]
  build get :=
    match get name with
    | some j => r j
    | none => .error .mismatched

/-- A field that an object may lack; `null` stands for none too. -/
def optional (name : String) (r : Reader α) : RecordReader (Option α) where
  fields := [⟨name, fun j => discard (r.option j), false⟩]
  build get :=
    match get name with
    | some j => r.option j
    | none => .ok none

/-- A field that may be missing, and then holds a default. -/
def defaulted (name : String) (r : Reader α) (default : α) : RecordReader α where
  fields := [⟨name, fun j => discard (r j), true⟩]
  build get :=
    match get name with
    | some j => r j
    | none => .ok default

instance : Applicative RecordReader where
  pure a := ⟨[], fun _ => .ok a⟩
  seq f x := ⟨f.fields ++ (x ()).fields, fun get => do return (← f.build get) (← (x ()).build get)⟩

/-- Checks the members of an object in text order. `seen` holds the names met so far. -/
def checkMembers (fields : List Field) (seen : List String) :
    List (Option String × Json) → Except Flaw Unit
  | [] => .ok ()
  | (none, _) :: _ => .error .malformed
  | (some key, value) :: members =>
    match fields.find? (·.name == key) with
    | none => checkMembers fields seen members
    | some field =>
      if seen.contains key then .error .mismatched
      else do
        field.check value
        checkMembers fields (key :: seen) members

/-- Gives the items of an array to the fields one by one. -/
def assign : List Field → List Json → Bool → Except Flaw (List (String × Json))
  | [], [], true => .ok []
  | [], _, _ => .error .malformed
  | field :: fields, item :: items, closed => do
    field.check item
    return (field.name, item) :: (← assign fields items closed)
  | field :: fields, [], true =>
    if field.omittable then assign fields [] true else .error .mismatched
  | _ :: _, [], false => .error .malformed

/-- The value of the member with a given key. -/
def member? (members : List (Option String × Json)) (key : String) : Option Json :=
  members.lookup (some key)

/-- Reads the record from an object or from an array. -/
def read (r : RecordReader α) : Reader α
  | .object members closed => do
    checkMembers r.fields [] members
    if closed then r.build (member? members) else throw .malformed
  | .array items closed => do
    let values ← assign r.fields items closed
    r.build fun name => values.lookup name
  | j => .error j.flaw

end RecordReader

/-- Reads a text that holds one value and nothing else. -/
def readText {α : Type} (r : Reader α) (s : String) : Except Flaw α :=
  let (j, rest) := parse s
  match r j with
  | .error e => .error e
  | .ok a => if isEnd rest then .ok a else .error .malformed

/-- Reads the value at the front of a text and leaves aside what follows it. -/
def readFront {α : Type} (r : Reader α) (s : String) : Except Flaw α :=
  r (parse s).1

end Bourse.Json
