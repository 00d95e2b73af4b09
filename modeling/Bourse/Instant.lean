import Bourse.Power
import Bourse.Text.Blank
import Bourse.Text.Digit

/-!
# Instants

A point in time is kept as its calendar date and clock time in UTC, down to nanoseconds. A leap
second is the second 59 with a nanosecond count of a full second or more.

The text form is RFC 3339 with a `Z` and with 0, 3, 6 or 9 fraction digits, the fewest that are
exact. Reading takes any offset and carries the day. It is lenient about blanks around the numbers
and about leading zeros.
-/

namespace Bourse

/-- Whether a year of the Gregorian calendar has a 29th of February. -/
def isLeapYear (year : Int) : Bool :=
  year % 4 == 0 && (year % 100 != 0 || year % 400 == 0)

/-- How many days a month of the Gregorian calendar has. -/
def daysInMonth (year : Int) (month : Nat) : Nat :=
  if month = 2 then if isLeapYear year then 29 else 28
  else if month = 4 ∨ month = 6 ∨ month = 9 ∨ month = 11 then 30
  else 31

/-- A point in time, in UTC. -/
structure Instant where
  year : Int
  month : Nat
  day : Nat
  hour : Nat
  minute : Nat
  second : Nat
  /-- Nanoseconds within the second; a full second more within a leap second. -/
  nano : Nat
  year_range : -262143 ≤ year ∧ year ≤ 262142
  month_range : 1 ≤ month ∧ month ≤ 12
  day_range : 1 ≤ day ∧ day ≤ daysInMonth year month
  time_range : hour < 24 ∧ minute < 60 ∧ second < 60
  /-- Only a second 59 can be a leap second. -/
  nano_range : nano < 1000000000 ∨ (second = 59 ∧ nano < 2000000000)
  deriving DecidableEq

namespace Instant

/-- The beginning of 1970. -/
def epoch : Instant :=
  ⟨1970, 1, 1, 0, 0, 0, 0, by decide, by decide, by decide, by decide, by decide⟩

instance : Inhabited Instant := ⟨epoch⟩

/-- The instant with the given date and time, if they are in range. -/
def ofFields? (year : Int) (month day hour minute second nano : Nat) : Option Instant :=
  if h : ((-262143 ≤ year ∧ year ≤ 262142) ∧ (1 ≤ month ∧ month ≤ 12)) ∧
      (1 ≤ day ∧ day ≤ daysInMonth year month) ∧ (hour < 24 ∧ minute < 60 ∧ second < 60) ∧
      (nano < 1000000000 ∨ (second = 59 ∧ nano < 2000000000)) then
    some ⟨year, month, day, hour, minute, second, nano, h.1.1, h.1.2, h.2.1, h.2.2.1, h.2.2.2⟩
  else none

/-- A number that grows with time: the fields of the instant, the year first, in mixed radix. -/
def rank (t : Instant) : Int :=
  (((((t.year * 13 + t.month) * 32 + t.day) * 24 + t.hour) * 60 + t.minute) * 60 + t.second) *
    2000000000 + t.nano

instance : LE Instant := ⟨fun a b => a.rank ≤ b.rank⟩

instance : LT Instant := ⟨fun a b => a.rank < b.rank⟩

instance (a b : Instant) : Decidable (a ≤ b) := inferInstanceAs (Decidable (a.rank ≤ b.rank))

instance (a b : Instant) : Decidable (a < b) := inferInstanceAs (Decidable (a.rank < b.rank))

/-- A number with at least `width` digits. -/
def padded (width n : Nat) : List Char :=
  let ds := Nat.toDigits 10 n
  List.replicate (width - ds.length) '0' ++ ds

/-- A year in four digits, with a sign when it has more or is negative. -/
def yearText (year : Int) : List Char :=
  if year < 0 then '-' :: padded 4 year.natAbs
  else if 9999 < year then '+' :: padded 4 year.natAbs
  else padded 4 year.natAbs

/-- The fraction of a second with the fewest of 0, 3, 6 or 9 digits. -/
def fractionText (nano : Nat) : List Char :=
  if nano = 0 then []
  else if nano % 1000000 = 0 then '.' :: padded 3 (nano / 1000000)
  else if nano % 1000 = 0 then '.' :: padded 6 (nano / 1000)
  else '.' :: padded 9 nano

/-- The text with a capital Z at its end. -/
def toText (t : Instant) : String :=
  let (second, nano) :=
    if t.nano < 1000000000 then (t.second, t.nano) else (t.second + 1, t.nano - 1000000000)
  String.ofList <| yearText t.year ++ '-' :: padded 2 t.month ++ '-' :: padded 2 t.day ++
    'T' :: padded 2 t.hour ++ ':' :: padded 2 t.minute ++ ':' :: padded 2 second ++
    fractionText nano ++ ['Z']

/-! ## Reading -/

/-- Takes at most `count` digits off the front of a text after `n`, and counts them. -/
def takeDigits : Nat → Nat → List Char → Nat × Nat × List Char
  | 0, n, cs => (n, 0, cs)
  | _ + 1, n, [] => (n, 0, [])
  | count + 1, n, c :: cs =>
    match Text.digit? c with
    | none => (n, 0, c :: cs)
    | some d =>
      let (n, used, rest) := takeDigits count (10 * n + d) cs
      (n, used + 1, rest)

/-- Takes a number of one to `count` digits off the front of a text. -/
def takeNumber? (count : Nat) (cs : List Char) : Option (Nat × List Char) :=
  match takeDigits count 0 cs with
  | (_, 0, _) => none
  | (n, _, rest) => some (n, rest)

/-- A number behind blanks. -/
def takeField? (count : Nat) (cs : List Char) : Option (Nat × List Char) :=
  takeNumber? count (Text.trimStart cs)

/-- A year: four digits, or any number of them behind a sign. -/
def takeYear? (cs : List Char) : Option (Int × List Char) :=
  match Text.trimStart cs with
  | '-' :: rest => (takeNumber? rest.length rest).map fun (n, rest) => (-(n : Int), rest)
  | '+' :: rest => (takeNumber? rest.length rest).map fun (n, rest) => ((n : Int), rest)
  | cs => (takeNumber? 4 cs).map fun (n, rest) => ((n : Int), rest)

/-- Takes a separator off the front of a text, after blanks. -/
def takeSeparator? (c : Char) (cs : List Char) : Option (List Char) :=
  match Text.trimStart cs with
  | d :: rest => if d = c then some rest else none
  | [] => none

/-- The mark between date and time. -/
def takeTimeMark? : List Char → Option (List Char)
  | c :: rest => if c = 'T' ∨ c = 't' ∨ c = ' ' then some rest else none
  | [] => none

/-- The fraction of a second in nanoseconds, digits behind the ninth left out. -/
def takeFraction? : List Char → Option (Nat × List Char)
  | '.' :: cs =>
    match takeDigits 9 0 cs with
    | (_, 0, _) => none
    | (n, used, rest) => some (n * pow10 (9 - used), rest.dropWhile Text.isDigit)
  | cs => some (0, cs)

/-- A signed offset in minutes: two digits of hours, colons or blanks, two digits of minutes. -/
def takeSignedOffset? (sign : Int) (cs : List Char) : Option (Int × List Char) :=
  match cs with
  | a :: b :: cs =>
    match Text.digit? a, Text.digit? b,
        cs.dropWhile fun c => c == ':' || Text.isBlank c with
    | some a, some b, c :: d :: rest =>
      match Text.digit? c, Text.digit? d with
      | some c, some d =>
        let minutes := (10 * a + b) * 60 + (10 * c + d)
        if c < 6 ∧ minutes < 1440 then some (sign * minutes, rest) else none
      | _, _ => none
    | _, _, _ => none
  | _ => none

/-- The offset from UTC in minutes. -/
def takeOffset? : List Char → Option (Int × List Char)
  | 'Z' :: rest => some (0, rest)
  | 'z' :: rest => some (0, rest)
  | '+' :: rest => takeSignedOffset? 1 rest
  | '-' :: rest => takeSignedOffset? (-1) rest
  | '−' :: rest => takeSignedOffset? (-1) rest
  | u :: t :: c :: rest =>
    if u.toUpper = 'U' ∧ t.toUpper = 'T' ∧ c.toUpper = 'C' then some (0, rest) else none
  | _ => none

/-- The day after a day. -/
def nextDay (year : Int) (month day : Nat) : Int × Nat × Nat :=
  if day < daysInMonth year month then (year, month, day + 1)
  else if month < 12 then (year, month + 1, 1)
  else (year + 1, 1, 1)

/-- The day before a day. -/
def previousDay (year : Int) (month day : Nat) : Int × Nat × Nat :=
  if 1 < day then (year, month, day - 1)
  else if 1 < month then (year, month - 1, daysInMonth year (month - 1))
  else (year - 1, 12, 31)

/-- The instant of a local date and time at an offset in minutes. A second of 60 is a leap
second. -/
def ofLocal? (year : Int) (month day hour minute second nano : Nat) (offset : Int) :
    Option Instant := do
  let (second, nano) := if second = 60 then (59, nano + 1000000000) else (second, nano)
  -- the local date and time must be in range before the offset is applied
  let _ ← ofFields? year month day hour minute second nano
  let minutes : Int := hour * 60 + minute - offset
  let (year, month, day) :=
    if minutes < 0 then previousDay year month day
    else if 1440 ≤ minutes then nextDay year month day
    else (year, month, day)
  let minutes := (minutes % 1440).toNat
  ofFields? year month day (minutes / 60) (minutes % 60) second nano

/-- Reads a date, a time of the day and an offset from UTC. -/
def ofText? (s : String) : Option Instant := do
  let (year, cs) ← takeYear? s.toList
  let (month, cs) ← takeField? 2 (← takeSeparator? '-' cs)
  let (day, cs) ← takeField? 2 (← takeSeparator? '-' cs)
  let (hour, cs) ← takeField? 2 (← takeTimeMark? cs)
  let (minute, cs) ← takeField? 2 (← takeSeparator? ':' cs)
  let (second, cs) ← takeField? 2 (← takeSeparator? ':' cs)
  let (nano, cs) ← takeFraction? cs
  let (offset, cs) ← takeOffset? (Text.trimStart cs)
  if (Text.trimStart cs).isEmpty then
    ofLocal? year month day hour minute second nano offset
  else none

end Instant

end Bourse
