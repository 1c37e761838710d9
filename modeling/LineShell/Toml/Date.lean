import LineShell.Toml.Number

namespace LineShell.Toml

/-! Dates and times of day, as they are written. -/

namespace Date

/-- The value of a number in exactly so many digits. -/
def fixed? (width : Nat) (text : Text) : Option Nat :=
  if text.length = width ∧ text.all Char.isDigit then
    some (Number.digitsValue 10 text)
  else none

def daysIn (year month : Nat) : Nat :=
  if month = 2 then
    if year % 4 = 0 ∧ (year % 100 ≠ 0 ∨ year % 400 = 0) then 29 else 28
  else if month ∈ [4, 6, 9, 11] then 30
  else 31

def isDay (text : Text) : Bool :=
  match (Text.splitOn ['-'] text) with
  | [year, month, day] =>
      match fixed? 4 year, fixed? 2 month, fixed? 2 day with
      | some year, some month, some day =>
          1 ≤ month && month ≤ 12 && 1 ≤ day && day ≤ daysIn year month
      | _, _, _ => false
  | _ => false

def isWithin (limit : Nat) (text : Text) : Bool :=
  (fixed? 2 text).any (· ≤ limit)

/-- Seconds with any number of decimals; a leap second may be the sixtieth. -/
def isSeconds (text : Text) : Bool :=
  isWithin 60 (text.take 2) &&
    match text.drop 2 with
    | [] => true
    | '.' :: decimals => decimals ≠ [] && decimals.all Char.isDigit
    | _ => false

def isTime (text : Text) : Bool :=
  match Text.splitOn [':'] text with
  | [hour, minute, second] =>
      isWithin 23 hour && isWithin 59 minute && isSeconds second
  | _ => false

/-- A distance from universal time, after its sign. -/
def isOffset (text : Text) : Bool :=
  match Text.splitOn [':'] text with
  | [hour, minute] => isWithin 23 hour && isWithin 59 minute
  | _ => false

/-- A time of day that may say how far it is from universal time. -/
def isZonedTime (text : Text) : Bool :=
  let time := text.takeWhile fun c => c.isDigit || c = ':' || c = '.'
  isTime time &&
    match text.drop time.length with
    | [] => true
    | ['Z'] | ['z'] => true
    | '+' :: offset | '-' :: offset => isOffset offset
    | _ => false

/-- The length of a day as it is written. -/
def dayLength : Nat := 10

/-- A day, a time of day, or both joined by a letter T. -/
def isDate (text : Text) : Bool :=
  isTime text || isDay text ||
    (isDay (text.take dayLength) &&
      match text.drop dayLength with
      | 'T' :: time | 't' :: time => isZonedTime time
      | _ => false)

end Date

end LineShell.Toml
