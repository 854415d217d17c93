-- Dates, times and durations as texts.
import JsonModel.Text.Digits

namespace JsonModel

/-! ## Dates -/

/-- A leap year of the Gregorian calendar. -/
def isLeapYear (year : Nat) : Bool := year % 4 == 0 && (year % 100 != 0 || year % 400 == 0)

/-- How many days a month has; none if there is no such month. -/
def daysInMonth (year month : Nat) : Nat :=
  if month = 2 then (if isLeapYear year then 29 else 28)
  else if month = 4 ∨ month = 6 ∨ month = 9 ∨ month = 11 then 30
  else if 1 ≤ month ∧ month ≤ 12 then 31
  else 0

/-- The text after a date at its start: year, month and day with hyphens between them. -/
def afterDate? : List Char → Option (List Char)
  | y₁ :: y₂ :: y₃ :: y₄ :: '-' :: m₁ :: m₂ :: '-' :: d₁ :: d₂ :: rest =>
    let year := [y₁, y₂, y₃, y₄]
    let month := [m₁, m₂]
    let day := [d₁, d₂]
    if (year ++ month ++ day).all isDecimalDigit then
      let d := digitsValue 10 day
      if 1 ≤ d ∧ d ≤ daysInMonth (digitsValue 10 year) (digitsValue 10 month) then some rest
      else none
    else none
  | _ => none

/-- A date. -/
def isDate (cs : List Char) : Bool := afterDate? cs == some []

/-! ## Times -/

/-- The text after two digits that write a number below a limit. -/
def afterPair? (limit : Nat) : List Char → Option (List Char)
  | a :: b :: rest =>
    if isDecimalDigit a && isDecimalDigit b && digitsValue 10 [a, b] < limit then some rest
    else none
  | _ => none

/-- The text after hours and minutes. -/
def afterMinutes? (cs : List Char) : Option (List Char) := do
  match ← afterPair? 24 cs with
  | ':' :: rest => afterPair? 60 rest
  | _ => none

/-- The text after a point and at least one digit; the text itself if no point comes. -/
def afterFraction? : List Char → Option (List Char)
  | '.' :: cs =>
    match cs.span isDecimalDigit with
    | ([], _) => none
    | (_, rest) => some rest
  | cs => some cs

/-- The text after a colon, seconds and a fraction of them. -/
def afterSeconds? : List Char → Option (List Char)
  | ':' :: cs => (afterPair? 60 cs).bind afterFraction?
  | _ => none

/-- A time: hours and minutes, seconds if wanted, and a fraction of them if wanted. -/
def isTime (cs : List Char) : Bool :=
  match afterMinutes? cs with
  | none => false
  | some [] => true
  | some rest => afterSeconds? rest == some []

/-- The end of a time with seconds: nothing, the letter of universal time, or an offset. -/
def isOffsetOrEnd : List Char → Bool
  | [] => true
  | ['Z'] => true
  | sign :: cs => (sign == '+' || sign == '-') && afterMinutes? cs == some []

/-- A time that an offset may follow, if the time has seconds. -/
def isTimeWithOffset (cs : List Char) : Bool :=
  match afterMinutes? cs with
  | none => false
  | some [] => true
  | some rest => ((afterSeconds? rest).map isOffsetOrEnd).getD false

/-- A date and a time with the letter T between them. -/
def isDateTime (cs : List Char) : Bool :=
  match afterDate? cs with
  | some ('T' :: rest) => isTimeWithOffset rest
  | _ => false

/-! ## Durations -/

/-- The text after digits and a unit; the text itself if they do not come. -/
def dropPart (unit : Char) (cs : List Char) : List Char :=
  match cs.span isDecimalDigit with
  | (_ :: _, c :: rest) => if c = unit then rest else cs
  | _ => cs

/-- The text after seconds, which may have a fraction behind a point or a comma. -/
def dropSeconds (cs : List Char) : List Char :=
  match cs.span isDecimalDigit with
  | (_ :: _, 'S' :: rest) => rest
  | (_ :: _, mark :: rest) =>
    if mark = '.' ∨ mark = ',' then
      match rest.span isDecimalDigit with
      | (_ :: _, 'S' :: rest) => rest
      | _ => cs
    else cs
  | _ => cs

/-- The text starts with a digit. -/
def startsWithDigit (cs : List Char) : Bool := (cs.head?.map isDecimalDigit).getD false

/-- The time part of a duration up to its end. -/
def isDurationTime : List Char → Bool
  | [] => true
  | 'T' :: cs => startsWithDigit cs && (dropSeconds (dropPart 'M' (dropPart 'H' cs))).isEmpty
  | _ => false

/-- A duration: the letter P, and weeks alone or years, months, days and a time in that order,
of which at least one comes. -/
def isDuration : List Char → Bool
  | 'P' :: cs =>
    (startsWithDigit cs && (dropPart 'W' cs).isEmpty)
      || ((startsWithDigit cs || (cs.head? == some 'T' && startsWithDigit cs.tail))
        && isDurationTime (dropPart 'D' (dropPart 'M' (dropPart 'Y' cs))))
  | _ => false

end JsonModel
