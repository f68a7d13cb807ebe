import FoamDict.Decimal.Float
import FoamDict.Text.Reader
import FoamDict.Toml.Value

/-!
# Numbers

Underscores may stand between digits. Whole numbers are decimal without leading zeros, or unsigned
in base two, eight or sixteen, and must fit into 64 bits with a sign; a float has a fraction, an
exponent, or both. A positive one that is too large for a float is refused, a negative one is
infinite.
-/

namespace FoamDict.Toml

open FoamDict.Text

/-- A further digit of the base, with an underscore in front or not. -/
def readFurtherDigit (base : Nat) : Reader (Option Char) := do
  let underscore ← Reader.skip? '_'
  match ← Reader.peek? with
  | some c =>
    if Decimal.isDigitOf base c then some <$> Reader.next
    else
      Reader.guard !underscore
      pure none
  | none =>
    Reader.guard !underscore
    pure none

/-- One or more digits of the base, without their underscores. -/
def readDigitsOf (base : Nat) : Reader (List Char) := do
  let head ← Reader.next
  Reader.guard (Decimal.isDigitOf base head)
  return head :: (← Reader.collect (readFurtherDigit base))

/-- Digits without leading zeros. -/
def readWhole : Reader (List Char) := do
  if ← Reader.skip? '0' then pure ['0'] else readDigitsOf 10

/-- The sign in front of a number: whether it is negative. -/
def readSign : Reader Bool := do
  if ← Reader.skip? '-' then pure true
  else
    let _ ← Reader.skip? '+'
    pure false

def readNatural (base : Nat) : Reader Value := do
  let n := Decimal.ofDigits base (← readDigitsOf base)
  Reader.guard (n < Nat.pow 2 63)
  pure (.integer n)

def readInteger : Reader Value := do
  if ← Reader.skipAll? ['0', 'x'] then readNatural 16
  else if ← Reader.skipAll? ['0', 'o'] then readNatural 8
  else if ← Reader.skipAll? ['0', 'b'] then readNatural 2
  else
    let negative ← readSign
    let n := Decimal.ofDigits 10 (← readWhole)
    Reader.guard (n < Nat.pow 2 63 || (negative && n = Nat.pow 2 63))
    pure (.integer (if negative then -n else n))

/-- The power of ten behind an `e`. -/
def readExponent : Reader (Option Int) := do
  let c ← Reader.peek?
  if c = some 'e' ∨ c = some 'E' then
    Reader.drop 1
    let negative ← readSign
    let n := Decimal.ofDigits 10 (← readDigitsOf 10)
    pure (some (if negative then -n else n))
  else pure none

def readDecimal : Reader Value := do
  let negative ← readSign
  let whole ← readWhole
  let fraction ← if ← Reader.skip? '.' then readDigitsOf 10 else pure []
  let exponent ← readExponent
  Reader.guard (!fraction.isEmpty || exponent.isSome)
  let digits := Decimal.ofDigits 10 (whole ++ fraction)
  let x := Decimal.toFloat digits (exponent.getD 0 - fraction.length)
  Reader.guard (x.isFinite || negative)
  pure (.float (if negative then -x else x))

def readSpecial : Reader Value := do
  let negative ← readSign
  if ← Reader.skipAll? ['i', 'n', 'f'] then
    pure (.float (Float.ofBits (if negative then 0xfff0000000000000 else 0x7ff0000000000000)))
  else
    Reader.guard (← Reader.skipAll? ['n', 'a', 'n'])
    pure (.float (Float.ofBits 0x7ff8000000000000))

def readNumber : Reader Value :=
  (readDecimal.orElse readSpecial).orElse readInteger

end FoamDict.Toml
