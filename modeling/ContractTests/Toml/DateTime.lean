import ContractTests.Json.Token

/-! # TOML dates and times

Which characters at the start of a text are a date, a time, or a date with a time. `dateTime?` gives
what follows them; a date may be followed by a `T` or a blank and a time, and that by an offset.
-/

set_option autoImplicit false

namespace ContractTests.Toml

/-- The number of exactly `count` digits, if it lies between the bounds. -/
def boundedNumber? (count low high : Nat) (cs : List Char) : Option (Nat × List Char) :=
  let digits := cs.take count
  let n := Json.Token.naturalValue digits
  if digits.length = count ∧ digits.all Char.isDigit ∧ low ≤ n ∧ n ≤ high then
    some (n, cs.drop count)
  else none

/-- What follows a character. -/
def after? (c : Char) : List Char → Option (List Char)
  | d :: rest => if d = c then some rest else none
  | [] => none

/-- The number of days of a month. -/
def daysIn (year month : Nat) : Nat :=
  if month = 2 then
    if year % 4 = 0 ∧ (year % 100 ≠ 0 ∨ year % 400 = 0) then 29 else 28
  else if month ∈ [4, 6, 9, 11] then 30
  else 31

def date? (cs : List Char) : Option (List Char) := do
  let (year, rest) ← boundedNumber? 4 0 9999 cs
  let (month, rest) ← boundedNumber? 2 1 12 (← after? '-' rest)
  let (_, rest) ← boundedNumber? 2 1 (daysIn year month) (← after? '-' rest)
  return rest

/-- Hours and minutes. -/
def hourMinute? (cs : List Char) : Option (List Char) := do
  let (_, rest) ← boundedNumber? 2 0 23 cs
  let (_, rest) ← boundedNumber? 2 0 59 (← after? ':' rest)
  return rest

/-- What follows a fraction of a second, if there is one. -/
def skipFraction : List Char → List Char
  | '.' :: c :: rest =>
    if c.isDigit then rest.dropWhile Char.isDigit else '.' :: c :: rest
  | cs => cs

/-- A time of day; a minute may have a leap second. -/
def time? (cs : List Char) : Option (List Char) := do
  let (_, rest) ← boundedNumber? 2 0 60 (← after? ':' (← hourMinute? cs))
  return skipFraction rest

/-- The distance of a local time from universal time. -/
def offset? : List Char → Option (List Char)
  | c :: rest =>
    if c = 'Z' ∨ c = 'z' then some rest
    else if c = '+' ∨ c = '-' then hourMinute? rest
    else none
  | [] => none

/-- The time after a date, with its offset. -/
def timeOfDate? : List Char → Option (List Char)
  | c :: rest => do
    let rest ← if c = 'T' ∨ c = 't' ∨ c = ' ' then time? rest else none
    return (offset? rest).getD rest
  | [] => none

/-- A date, a time, or both. -/
def dateTime? (cs : List Char) : Option (List Char) :=
  match date? cs with
  | some rest => some ((timeOfDate? rest).getD rest)
  | none => time? cs

end ContractTests.Toml
