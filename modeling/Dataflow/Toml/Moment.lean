import Dataflow.Toml.Number

/-!
# Dates and times of TOML

A date is a year, a month and a day that the calendar has.  A time has hours,
minutes, seconds, which may be leap seconds, and perhaps a fraction.  A date and
a time together may have an offset from universal time.
-/

namespace Dataflow.Toml.Moment

/-- The number that exactly these decimal digits are. -/
def number? (digits : List Char) : Option Nat :=
  (digits.mapM (digit? 10)).map (ofDigits 10)

def isLeapYear (year : Nat) : Bool :=
  year % 4 = 0 && (year % 100 ≠ 0 || year % 400 = 0)

/-- The number of days of a month, none for what is no month. -/
def daysInMonth (year month : Nat) : Nat :=
  if month = 2 then if isLeapYear year then 29 else 28
  else if month ∈ [4, 6, 9, 11] then 30
  else if month ∈ [1, 3, 5, 7, 8, 10, 12] then 31
  else 0

/-- Whether a word is a date, such as 1979-05-27. -/
def isDate : List Char → Bool
  | [y₁, y₂, y₃, y₄, '-', m₁, m₂, '-', d₁, d₂] =>
    match number? [y₁, y₂, y₃, y₄], number? [m₁, m₂], number? [d₁, d₂] with
    | some year, some month, some day => 1 ≤ day && day ≤ daysInMonth year month
    | _, _, _ => false
  | _ => false

/-- Whether two characters are a number up to a bound. -/
def isUpTo (bound : Nat) (tens ones : Char) : Bool :=
  (number? [tens, ones]).any (· ≤ bound)

/-- What follows the time of day that a word starts with, such as 07:32:00.5. -/
def afterTime? : List Char → Option (List Char)
  | h₁ :: h₂ :: ':' :: m₁ :: m₂ :: ':' :: s₁ :: s₂ :: rest =>
    if isUpTo 23 h₁ h₂ && isUpTo 59 m₁ m₂ && isUpTo 60 s₁ s₂ then
      match rest with
      | '.' :: digit :: fraction =>
        if digit.isDigit then some (fraction.dropWhile Char.isDigit) else none
      | rest => some rest
    else
      none
  | _ => none

/-- Whether a word is an offset, such as Z or -07:00. -/
def isOffset : List Char → Bool
  | [c] => c == 'Z' || c == 'z'
  | [sign, h₁, h₂, ':', m₁, m₂] =>
    (sign == '+' || sign == '-') && isUpTo 23 h₁ h₂ && isUpTo 59 m₁ m₂
  | _ => false

def isTime (word : List Char) : Bool :=
  afterTime? word = some []

/-- Whether a word is a time that may have an offset. -/
def isTimeWithOffset (word : List Char) : Bool :=
  match afterTime? word with
  | none => false
  | some rest => rest.isEmpty || isOffset rest

/-- Whether a word is a date and a time with a letter between them. -/
def isDateTime (word : List Char) : Bool :=
  match word.drop 10 with
  | c :: time => isDate (word.take 10) && (c == 'T' || c == 't') && isTimeWithOffset time
  | [] => false

def isMoment (word : List Char) : Bool :=
  isDate word || isTime word || isDateTime word

end Dataflow.Toml.Moment
