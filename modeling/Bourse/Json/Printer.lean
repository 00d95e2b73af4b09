import Bourse.Json.Literal

/-!
# Writing JSON text

The compact form has no blanks at all. The indented form puts each item and member on a line of its
own, two blanks deeper than its container, and writes an empty container as two brackets. Places
where a read text stopped are written as `null`.
-/

namespace Bourse.Json

/-- The literal of a number. -/
def Number.write : Number → List Char
  | .whole n => (toString n).toList
  | .real x => x.jsonText.toList

/-- The key of a member as a string literal. -/
def writeKey (key : Option String) : List Char :=
  writeString (key.getD "")

mutual

/-- The form without blanks. -/
def compact : Json → List Char
  | .null => ['n', 'u', 'l', 'l']
  | .bool true => ['t', 'r', 'u', 'e']
  | .bool false => ['f', 'a', 'l', 's', 'e']
  | .number n => Number.write n
  | .string s => writeString s
  | .array items _ => '[' :: (compactItems items ++ [']'])
  | .object members _ => '{' :: (compactMembers members ++ ['}'])
  | .unreadable => ['n', 'u', 'l', 'l']
  | .broken => ['n', 'u', 'l', 'l']

/-- Items with commas between them. -/
def compactItems : List Json → List Char
  | [] => []
  | [item] => compact item
  | item :: items => compact item ++ ',' :: compactItems items

/-- Members with commas between them. -/
def compactMembers : List (Option String × Json) → List Char
  | [] => []
  | [(key, value)] => writeKey key ++ ':' :: compact value
  | (key, value) :: members =>
    writeKey key ++ ':' :: (compact value ++ ',' :: compactMembers members)

end

/-- A line break and the blanks in front of a line. -/
def lineBreak (depth : Nat) : List Char :=
  '\n' :: List.replicate (2 * depth) ' '

mutual

/-- The indented form inside `depth` containers. -/
def indented (depth : Nat) : Json → List Char
  | .array [] _ => ['[', ']']
  | .array (item :: items) _ =>
    '[' :: (lineBreak (depth + 1) ++ indented (depth + 1) item ++ indentedItems depth items ++
      lineBreak depth ++ [']'])
  | .object [] _ => ['{', '}']
  | .object ((key, value) :: members) _ =>
    '{' :: (lineBreak (depth + 1) ++ writeKey key ++ ':' :: ' ' :: indented (depth + 1) value ++
      indentedMembers depth members ++ lineBreak depth ++ ['}'])
  | .null => ['n', 'u', 'l', 'l']
  | .bool true => ['t', 'r', 'u', 'e']
  | .bool false => ['f', 'a', 'l', 's', 'e']
  | .number n => Number.write n
  | .string s => writeString s
  | .unreadable => ['n', 'u', 'l', 'l']
  | .broken => ['n', 'u', 'l', 'l']

/-- The items after the first, each behind a comma. -/
def indentedItems (depth : Nat) : List Json → List Char
  | [] => []
  | item :: items =>
    ',' :: (lineBreak (depth + 1) ++ indented (depth + 1) item ++ indentedItems depth items)

/-- The members after the first, each behind a comma. -/
def indentedMembers (depth : Nat) : List (Option String × Json) → List Char
  | [] => []
  | (key, value) :: members =>
    ',' :: (lineBreak (depth + 1) ++ writeKey key ++ ':' :: ' ' :: indented (depth + 1) value ++
      indentedMembers depth members)

end

/-- The text without blanks. -/
def toText (j : Json) : String := String.ofList (compact j)

/-- The text in lines. -/
def toIndentedText (j : Json) : String := String.ofList (indented 0 j)

end Bourse.Json
