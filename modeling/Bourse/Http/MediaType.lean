/-!
# Media types

Whether the content type of a request announces JSON: `application/json`, or a type whose last
suffix is `+json`, in any case of letters, with well-formed parameters behind semicolons. A quoted
value ends at the next quote: there are no escapes in it.
-/

namespace Bourse.Http

/-- The characters of a token. -/
def isTokenChar (c : Char) : Bool :=
  c.isAlphanum || "!#$%&'*+-.^_|~".toList.contains c || c.toNat == 96

def isQuotedChar (c : Char) : Bool :=
  31 < c.toNat && c.toNat < 127

/-- What follows a quoted value, whose opening quote and first character are gone. -/
def afterQuoted? : List Char → Option (List Char)
  | '"' :: rest => some rest
  | c :: rest => if isQuotedChar c then afterQuoted? rest else none
  | [] => none

/-- What follows the value of a parameter and its semicolon. Only at the very end a value may be
empty, and then it has no quotes. -/
def afterValue? : List Char → Option (List Char)
  | '"' :: c :: rest => if isQuotedChar c then (afterQuoted? rest).bind afterBlanks? else none
  | cs =>
    match cs.dropWhile isTokenChar with
    | [] => some []
    | ';' :: rest => if (cs.takeWhile isTokenChar).isEmpty then none else some rest
    | _ => none
where
  /-- What follows the semicolon behind a quoted value. -/
  afterBlanks? (cs : List Char) : Option (List Char) :=
    match cs.dropWhile (· == ' ') with
    | [] => some []
    | ';' :: rest => some rest
    | _ => none

/-- Whether a text is a list of parameters, which may be empty. Each takes at least one
character. -/
def areParameters : Nat → List Char → Bool
  | 0, cs => cs.isEmpty
  | n + 1, cs =>
    match cs.dropWhile (· == ' ') with
    | [] => true
    | cs =>
      match cs.takeWhile isTokenChar, cs.dropWhile isTokenChar with
      | _ :: _, '=' :: rest =>
        match afterValue? rest with
        | some rest => areParameters n rest
        | none => false
      | _, _ => false

/-- The characters behind the last plus sign that is not the first character, and those in front of
it. -/
def splitSuffix (subtype : List Char) : List Char × Option (List Char) :=
  match subtype.reverse.span (· != '+') with
  | (_, []) => (subtype, none)
  | (_, [_]) => (subtype, none)
  | (suffix, _ :: front) => (front.reverse, some suffix.reverse)

/-- Whether a subtype without its suffix, or its suffix, is JSON. -/
def isJsonSubtype (subtype : List Char) : Bool :=
  let (front, suffix) := splitSuffix (subtype.map Char.toLower)
  front == "json".toList || suffix == some "json".toList

/-- Whether a media type announces JSON. -/
def isJsonType (s : String) : Bool :=
  match s.toList.span isTokenChar with
  | (type, '/' :: rest) =>
    let subtype := rest.takeWhile isTokenChar
    let parameters := match rest.dropWhile isTokenChar with
      | [] => true
      | c :: cs => c == ';' && areParameters cs.length cs
    type.map Char.toLower == "application".toList && isJsonSubtype subtype && parameters
  | _ => false

end Bourse.Http
