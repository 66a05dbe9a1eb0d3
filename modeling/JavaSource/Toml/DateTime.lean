import JavaSource.Toml.Number

namespace JavaSource.Toml

/-- A number of exactly so many digits, between two limits. -/
def field (width low high : Nat) (text : List Char) : Option (List Char × List Char) := do
  let digits := text.take width
  let value ← naturalIn 10 digits
  if digits.length = width ∧ digits.all Char.isDigit ∧ low ≤ value ∧ value ≤ high then
    some (digits, text.drop width)
  else
    none

/-- A text without the given character, which it has to begin with. -/
def expect (c : Char) : List Char → Option (List Char)
  | first :: rest => if first = c then some rest else none
  | [] => none

/-- The number of days of a month. -/
def daysIn (year month : Nat) : Nat :=
  if month = 2 then
    if year % 4 = 0 ∧ (year % 100 ≠ 0 ∨ year % 400 = 0) then 29 else 28
  else if month = 4 ∨ month = 6 ∨ month = 9 ∨ month = 11 then 30
  else 31

/-- A date: year, month and day. -/
def date (text : List Char) : Option (List Char × List Char) := do
  let (year, text) ← field 4 0 9999 text
  let (month, text) ← field 2 1 12 (← expect '-' text)
  let last := daysIn ((naturalIn 10 year).getD 0) ((naturalIn 10 month).getD 0)
  let (day, text) ← field 2 1 last (← expect '-' text)
  return (year ++ '-' :: month ++ '-' :: day, text)

/-- The fraction of a second, to the nanosecond and without zeros at its end. -/
def fractionOfSecond (text : List Char) : Option (List Char × List Char) :=
  match text with
  | '.' :: rest =>
    let digits := rest.takeWhile Char.isDigit
    if digits.isEmpty then none
    else
      let kept := ((digits.take 9).reverse.dropWhile (· = '0')).reverse
      some (if kept.isEmpty then [] else '.' :: kept, rest.dropWhile Char.isDigit)
  | _ => some ([], text)

/-- A time of day. The seconds and their fraction may be left out. -/
def time (text : List Char) : Option (List Char × List Char) := do
  let (hour, text) ← field 2 0 23 text
  let (minute, text) ← field 2 0 59 (← expect ':' text)
  match text with
  | ':' :: rest =>
    let (second, rest) ← field 2 0 60 rest
    let (fraction, rest) ← fractionOfSecond rest
    return (hour ++ ':' :: minute ++ ':' :: second ++ fraction, rest)
  | _ => return (hour ++ ':' :: minute, text)

/-- The distance from universal time, which may be left out. -/
def offset (text : List Char) : Option (List Char × List Char) :=
  match text with
  | 'Z' :: rest => some (['Z'], rest)
  | 'z' :: rest => some (['Z'], rest)
  | sign :: rest =>
    if sign = '+' ∨ sign = '-' then do
      let (hour, rest) ← field 2 0 23 rest
      let (minute, rest) ← field 2 0 59 (← expect ':' rest)
      return (sign :: hour ++ ':' :: minute, rest)
    else
      some ([], text)
  | [] => some ([], text)

/-- A date, a time of day, or both with a letter or a space between them, as the text
    that is written for it and what follows it. -/
def dateTime (text : List Char) : Option (List Char × List Char) :=
  match date text with
  | none => time text
  | some (day, rest) =>
    let withTime (rest : List Char) : Option (List Char × List Char) := do
      let (hour, rest) ← time rest
      let (zone, rest) ← offset rest
      return (day ++ 'T' :: hour ++ zone, rest)
    match rest with
    | 'T' :: rest => withTime rest
    | 't' :: rest => withTime rest
    | ' ' :: c :: more => if c.isDigit then withTime (c :: more) else some (day, rest)
    | _ => some (day, rest)

end JavaSource.Toml
