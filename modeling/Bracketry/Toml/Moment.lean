import Bracketry.Toml.Text

/-
  Dates and times in a TOML document.

  A date has a year of four digits, and its day exists.  A
  time of day can leave out its seconds.  Only a time behind
  a date has an offset.

  Key definitions include:
    * `Toml.Moment.daysIn`
    * `Toml.Moment.isDate`
    * `Toml.Moment.isMoment`
-/

------------------------------------------------------------
-- Numbers of Fixed Width
------------------------------------------------------------

namespace Bracketry

namespace Toml

namespace Moment

/- A number of so many decimal digits. -/
def fixed? : Nat → Nat → Reader Nat
  | 0, number, text => some (number, text)
  | _ + 1, _, [] => none
  | width + 1, number, c :: rest =>
      if c.isDigit then
        fixed? width (number * 10 + (c.toNat - '0'.toNat)) rest
      else none

/- A number of two digits, up to a bound. -/
def twoDigits?
    (bound : Nat) :
    Reader Nat :=
  fun text => do
    let (number, rest) ← fixed? 2 0 text
    if number ≤ bound then return (number, rest) else none

/- What follows a character that has to be next. -/
def behind?
    (mark : Char) :
    List Char → Option (List Char)
  | [] => none
  | c :: rest => if c = mark then some rest else none

end Moment

end Toml

end Bracketry

------------------------------------------------------------
-- Dates
------------------------------------------------------------

namespace Bracketry

namespace Toml

namespace Moment

/- The year has a leap day. -/
def isLeapYear
    (year : Nat) :
    Bool :=
  year % 4 = 0 && (year % 100 ≠ 0 || year % 400 = 0)

/- The number of days of a month. -/
def daysIn
    (year month : Nat) :
    Nat :=
  if month = 2 then if isLeapYear year then 29 else 28
  else if month = 4 ∨ month = 6 ∨ month = 9 ∨ month = 11 then
    30
  else 31

/- What follows a date. -/
def behindDate?
    (text : List Char) :
    Option (List Char) := do
  let (year, rest) ← fixed? 4 0 text
  let (month, rest) ← twoDigits? 12 (← behind? '-' rest)
  let (day, rest) ← fixed? 2 0 (← behind? '-' rest)
  if 1 ≤ month ∧ 1 ≤ day ∧ day ≤ daysIn year month then
    return rest
  else none

/- The whole text is a date. -/
def isDate
    (text : List Char) :
    Bool :=
  behindDate? text = some []

end Moment

end Toml

end Bracketry

------------------------------------------------------------
-- Times
------------------------------------------------------------

namespace Bracketry

namespace Toml

namespace Moment

/- What follows the parts of a second, if there are any. -/
def behindFraction?
    (text : List Char) :
    Option (List Char) :=
  match text with
  | '.' :: rest =>
      if rest.head?.any (·.isDigit) then
        some (rest.dropWhile (·.isDigit))
      else none
  | _ => some text

/- What follows a time of day. -/
def behindTime?
    (text : List Char) :
    Option (List Char) := do
  let (_, rest) ← twoDigits? 23 text
  let (_, rest) ← twoDigits? 59 (← behind? ':' rest)
  match rest with
  | ':' :: rest => do
      let (_, rest) ← twoDigits? 60 rest
      behindFraction? rest
  | _ => return rest

/- The text is an offset, or nothing. -/
def isOffset : List Char → Bool
  | [] => true
  | [c] => c = 'Z' || c = 'z'
  | sign :: rest =>
      (sign = '+' || sign = '-') &&
        (do
          let (_, rest) ← twoDigits? 23 rest
          let (_, rest) ← twoDigits? 59 (← behind? ':' rest)
          return rest) = some []

/- The text is a date, a time, or a date with a time. -/
def isMoment
    (text : List Char) :
    Bool :=
  match behindDate? text with
  | none => behindTime? text = some []
  | some [] => true
  | some (separator :: rest) =>
      (separator = 'T' || separator = 't' ||
        separator = ' ') &&
        (behindTime? rest).any isOffset

end Moment

end Toml

end Bracketry
