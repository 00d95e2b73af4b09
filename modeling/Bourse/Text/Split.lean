/-!
# Splitting texts

A text is split into the parts between the occurrences of a separator. There is one part more than
there are separators, so the empty text has one empty part.
-/

namespace Bourse.Text

/-- The parts of a text between the separators. -/
def split (sep : Char) : List Char → List (List Char)
  | [] => [[]]
  | c :: cs =>
    if c = sep then [] :: split sep cs
    else
      match split sep cs with
      | [] => [[c]]
      | part :: parts => (c :: part) :: parts

/-- The text in front of the first separator, and the text behind it if there is one. -/
def splitOnce (sep : Char) (cs : List Char) : List Char × Option (List Char) :=
  match cs.span (· != sep) with
  | (front, []) => (front, none)
  | (front, _ :: back) => (front, some back)

end Bourse.Text
