import ViewHolder.Text.Basic
import ViewHolder.Text.Digits

/-!
# TOML dates and times

A moment is a date, a time, or a date and a time, then perhaps with an offset.  Only its form is of
interest: no setting is a moment.

## Main definitions

* `Toml.isDate`, `Toml.isTime`, `Toml.isOffset` : the parts of a moment.
* `Toml.isMoment` : whether some characters write a moment.
-/

namespace ViewHolder.Toml

/-- The number that exactly `n` digits write. -/
def fixed? (n : Nat) (cs : List Char) : Option Nat :=
  if cs.length = n then Text.ofDigits? 10 cs else none

/-- Whether exactly `n` digits write a number between two bounds. -/
def isFixed (n lo hi : Nat) (cs : List Char) : Bool :=
  match fixed? n cs with
  | some v => lo ≤ v && v ≤ hi
  | none => false

/-- Whether a year has a leap day. -/
def isLeapYear (year : Nat) : Bool := year % 4 == 0 && (year % 100 != 0 || year % 400 == 0)

/-- The number of days of a month. -/
def daysOfMonth (year month : Nat) : Nat :=
  if month = 2 then (if isLeapYear year then 29 else 28)
  else if month = 4 ∨ month = 6 ∨ month = 9 ∨ month = 11 then 30
  else 31

/-- Whether some characters write a date. -/
def isDate (cs : List Char) : Bool :=
  match Text.pieces (· == '-') cs with
  | [y, m, d] =>
    match fixed? 4 y, fixed? 2 m with
    | some year, some month =>
      1 ≤ month && month ≤ 12 && isFixed 2 1 (daysOfMonth year month) d
    | _, _ => false
  | _ => false

/-- Whether some characters write seconds, perhaps with a fraction. -/
def isSeconds (cs : List Char) : Bool :=
  match Text.pieces (· == '.') cs with
  | [s] => isFixed 2 0 60 s
  | [s, fraction] =>
    isFixed 2 0 60 s && !fraction.isEmpty && fraction.all (Text.isDigitOf 10)
  | _ => false

/-- Whether some characters write a time of a day. -/
def isTime (cs : List Char) : Bool :=
  match Text.pieces (· == ':') cs with
  | [h, m, s] => isFixed 2 0 23 h && isFixed 2 0 59 m && isSeconds s
  | _ => false

/-- Whether some characters write an offset from universal time. -/
def isOffset : List Char → Bool
  | [] => true
  | ['Z'] => true
  | ['z'] => true
  | c :: cs =>
    (c == '+' || c == '-') &&
      match Text.pieces (· == ':') cs with
      | [h, m] => isFixed 2 0 23 h && isFixed 2 0 59 m
      | _ => false

/-- Whether a character continues a time, and does not start an offset. -/
def isTimeChar (c : Char) : Bool := Text.isDigitOf 10 c || c == ':' || c == '.'

/-- Whether some characters write a time, perhaps with an offset. -/
def isTimeWithOffset (cs : List Char) : Bool :=
  isTime (cs.takeWhile isTimeChar) && isOffset (cs.dropWhile isTimeChar)

/-- The number of characters of a date. -/
def dateLength : Nat := 10

/-- Whether some characters without a blank write a moment. -/
def isMoment (cs : List Char) : Bool :=
  match cs.drop dateLength with
  | [] => isDate cs || isTime cs
  | c :: time =>
    isTime cs
      || (isDate (cs.take dateLength) && (c == 'T' || c == 't') && isTimeWithOffset time)

end ViewHolder.Toml
