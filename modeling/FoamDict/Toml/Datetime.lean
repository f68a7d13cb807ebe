import FoamDict.Decimal.Digits
import FoamDict.Text.Reader

/-!
# Dates and times

A date, a time, or both with an optional offset. However it was written, it is shown with a `T`
between date and time, with a `Z` or an offset in hours and minutes, and without zeros at the end of
a fraction.
-/

namespace FoamDict.Toml

open FoamDict.Text

structure Date where
  year : Nat
  month : Nat
  day : Nat
  deriving DecidableEq

structure Time where
  hour : Nat
  minute : Nat
  second : Nat
  nanosecond : Nat
  deriving DecidableEq

inductive Offset where
  | utc
  | minutes (count : Int)
  deriving DecidableEq

inductive Datetime where
  | date (d : Date)
  | time (t : Time)
  | both (d : Date) (t : Time) (offset : Option Offset)
  deriving DecidableEq

/-- A number with zeros in front, up to `width` digits. -/
def padded (width n : Nat) : String :=
  let digits := Nat.toDigits 10 n
  String.ofList (List.replicate (width - digits.length) '0' ++ digits)

namespace Date

def isLeapYear (year : Nat) : Bool := (year % 4 = 0 && year % 100 ≠ 0) || year % 400 = 0

def daysIn (year : Nat) : Nat → Nat
  | 2 => if isLeapYear year then 29 else 28
  | 4 | 6 | 9 | 11 => 30
  | _ => 31

def isValid (d : Date) : Bool :=
  1 ≤ d.month && d.month ≤ 12 && 1 ≤ d.day && d.day ≤ daysIn d.year d.month

def render (d : Date) : String :=
  padded 4 d.year ++ "-" ++ padded 2 d.month ++ "-" ++ padded 2 d.day

end Date

namespace Time

/-- A minute may have a leap second. -/
def isValid (t : Time) : Bool := t.hour ≤ 23 && t.minute ≤ 59 && t.second ≤ 60

def fraction (t : Time) : String :=
  if t.nanosecond = 0 then ""
  else
    let digits := (padded 9 t.nanosecond).toList
    String.ofList ('.' :: (digits.reverse.dropWhile (· = '0')).reverse)

def render (t : Time) : String :=
  padded 2 t.hour ++ ":" ++ padded 2 t.minute ++ ":" ++ padded 2 t.second ++ t.fraction

end Time

def Offset.render : Offset → String
  | utc => "Z"
  | minutes count =>
    (if count < 0 then "-" else "+")
      ++ padded 2 (count.natAbs / 60) ++ ":" ++ padded 2 (count.natAbs % 60)

namespace Datetime

def render : Datetime → String
  | date d => d.render
  | time t => t.render
  | both d t offset => d.render ++ "T" ++ t.render ++ (offset.map Offset.render).getD ""

def readDigits (count : Nat) : Reader Nat := do
  let digits ← Reader.take count
  Reader.guard (digits.length = count)
  Reader.ofOption (Decimal.ofDigits? 10 digits)

def readDate : Reader Date := do
  let year ← readDigits 4
  Reader.skip '-'
  let month ← readDigits 2
  Reader.skip '-'
  let day ← readDigits 2
  let d : Date := ⟨year, month, day⟩
  Reader.guard d.isValid
  pure d

/-- Digits past the ninth are dropped. -/
def readFraction : Reader Nat := do
  if ← Reader.skip? '.' then
    let digits ← Reader.takeSome Char.isDigit
    pure (Decimal.ofDigits 10 ((digits ++ List.replicate 9 '0').take 9))
  else pure 0

def readTime : Reader Time := do
  let hour ← readDigits 2
  Reader.skip ':'
  let minute ← readDigits 2
  Reader.skip ':'
  let second ← readDigits 2
  let t : Time := ⟨hour, minute, second, ← readFraction⟩
  Reader.guard t.isValid
  pure t

def readOffset : Reader Offset := do
  match ← Reader.next with
  | 'Z' | 'z' => pure .utc
  | c =>
    Reader.guard (c = '+' || c = '-')
    let hours ← readDigits 2
    Reader.skip ':'
    let minutes ← readDigits 2
    Reader.guard (hours ≤ 23 && minutes ≤ 59)
    let count : Int := hours * 60 + minutes
    pure (.minutes (if c = '-' then -count else count))

/-- The time of day behind a date, if one follows. -/
def readRest : Reader (Time × Option Offset) := do
  let c ← Reader.next
  Reader.guard (c = 'T' || c = 't' || c = ' ')
  let t ← readTime
  return (t, ← Reader.attempt readOffset)

def read : Reader Datetime := do
  match ← Reader.attempt readDate with
  | none => time <$> readTime
  | some d =>
    match ← Reader.attempt readRest with
    | none => pure (date d)
    | some (t, offset) => pure (both d t offset)

end Datetime

end FoamDict.Toml
