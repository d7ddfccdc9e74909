import ResourcePack.Text.Digits

/-!
# Dates and times of TOML

A moment is a date, a time of day or both, and with both perhaps an offset from universal
time. It can be spelled in several ways; `normal?` gives the one with a capital `T` between
date and time, a fraction of at most nine digits without zeros behind it, and no negative
offset of zero.
-/

namespace ResourcePack

namespace Toml

namespace Moment

/-- The number in a field of exactly as many digits as `count` says, and what follows. -/
def field? (count : Nat) (text : List Char) : Option (Nat × List Char) :=
  let digits := text.take count
  if digits.length = count ∧ digits.all Char.isDigit then
    some (Text.number 10 digits, text.drop count)
  else none

/-- What follows a character that has to come next. -/
def expect? (c : Char) (text : List Char) : Option (List Char) :=
  match text with
  | d :: rest => if c = d then some rest else none
  | [] => none

def daysIn (year month : Nat) : Nat :=
  if month = 2 then
    if year % 4 = 0 ∧ (year % 100 ≠ 0 ∨ year % 400 = 0) then 29 else 28
  else if month ∈ [4, 6, 9, 11] then 30
  else 31

def dateWidth : Nat := 10

/-- What follows a date. -/
def date? (text : List Char) : Option (List Char) := do
  let (year, rest) ← field? 4 text
  let (month, rest) ← field? 2 (← expect? '-' rest)
  let (day, rest) ← field? 2 (← expect? '-' rest)
  if 1 ≤ month ∧ month ≤ 12 ∧ 1 ≤ day ∧ day ≤ daysIn year month then some rest else none

def isDate (text : List Char) : Bool := date? text = some []

/-- What follows an hour and a minute. -/
def minutes? (text : List Char) : Option (List Char) := do
  let (hour, rest) ← field? 2 text
  let (minute, rest) ← field? 2 (← expect? ':' rest)
  if hour ≤ 23 ∧ minute ≤ 59 then some rest else none

/-- What follows an hour, a minute and a second. A minute may have a leap second. -/
def seconds? (text : List Char) : Option (List Char) := do
  let (second, rest) ← field? 2 (← expect? ':' (← minutes? text))
  if second ≤ 60 then some rest else none

def timeWidth : Nat := 8

/-- The fraction of a second in its shortest spelling, cut after nine digits. -/
def shortFraction (digits : List Char) : List Char :=
  match ((digits.take 9).reverse.dropWhile (· = '0')).reverse with
  | [] => []
  | kept => '.' :: kept

/-- A time of day in its usual spelling, and what follows. -/
def time? (text : List Char) : Option (List Char × List Char) := do
  match ← seconds? text with
  | '.' :: rest =>
    let digits := rest.takeWhile Char.isDigit
    if digits.isEmpty then none
    else some (text.take timeWidth ++ shortFraction digits, rest.dropWhile Char.isDigit)
  | rest => some (text.take timeWidth, rest)

/-- An offset from universal time in its usual spelling; an empty text is none. -/
def offset? (text : List Char) : Option (List Char) :=
  match text with
  | [] => some []
  | ['Z'] | ['z'] => some ['Z']
  | sign :: rest =>
    if (sign = '+' ∨ sign = '-') ∧ minutes? rest = some [] then
      some ((if rest = ['0', '0', ':', '0', '0'] then '+' else sign) :: rest)
    else none

/-- Whether a character may stand between a date and a time. -/
def isMark (c : Char) : Bool := c = 'T' || c = 't' || c = ' '

/-- A moment in its usual spelling. -/
def normal? (text : List Char) : Option (List Char) :=
  match time? text with
  | some (time, []) => some time
  | _ => do
    match ← date? text with
    | [] => some text
    | mark :: rest =>
      let (time, rest) ← time? rest
      let offset ← offset? rest
      if isMark mark then some (text.take dateWidth ++ 'T' :: time ++ offset) else none

example : (normal? "2024-02-29 07:32:60.1200z".toList).map String.ofList =
    some "2024-02-29T07:32:60.12Z" := by decide

example : (normal? "07:32:00.0".toList).map String.ofList = some "07:32:00" ∧
    normal? "2023-02-29".toList = none ∧ normal? "07:32:00Z".toList = none := by decide

end Moment

end Toml

end ResourcePack
