import FoamDict.Decimal.Float
import FoamDict.Yaml.Cursor

/-!
# Scalars

A scalar is a text, written plainly, in quotes, or as a block. Only a plain scalar may mean anything
other than a text: nothing, a truth value or a number.
-/

namespace FoamDict.Yaml

structure Scalar where
  isPlain : Bool
  text : String
  deriving DecidableEq

/-- The scalar that stands where a value is left out. -/
def Scalar.missing : Scalar := ⟨true, ""⟩

/-- What a scalar means. A whole number past 64 bits is told apart as `wide`. -/
inductive Meaning where
  | nothing
  | bool (value : Bool)
  | integer (value : Int)
  | wide (value : Int)
  | float (value : Float)
  | text (value : String)

namespace Scalar

/-- Leading zeros make digits a text, so that no base is guessed. -/
def isPaddedDigits (cs : List Char) : Bool :=
  match (match cs with | '-' :: rest => rest | '+' :: rest => rest | _ => cs) with
  | '0' :: c :: rest => (c :: rest).all Char.isDigit
  | _ => false

/-- Digits with the mark of their base, if it is not ten. -/
def naturalOf? : List Char → Option Nat
  | '0' :: 'x' :: digits => Decimal.ofDigits? 16 digits
  | '0' :: 'o' :: digits => Decimal.ofDigits? 8 digits
  | '0' :: 'b' :: digits => Decimal.ofDigits? 2 digits
  | digits => if isPaddedDigits digits then none else Decimal.ofDigits? 10 digits

def integerOf? : List Char → Option Int
  | '-' :: digits => (naturalOf? digits).map (-·)
  | '+' :: digits => (naturalOf? digits).map (·)
  | digits => (naturalOf? digits).map (·)

/-- The exponent behind a mantissa; none reads as zero. -/
def exponentOf? : List Char → Option Int
  | [] => some 0
  | c :: rest =>
    if c = 'e' ∨ c = 'E' then
      match rest with
      | '-' :: digits => (Decimal.ofDigits? 10 digits).map (-·)
      | '+' :: digits => (Decimal.ofDigits? 10 digits).map (·)
      | digits => (Decimal.ofDigits? 10 digits).map (·)
    else none

/-- Digits with at most one point and an exponent, all finite floats included. -/
def decimalOf? (cs : List Char) : Option Float := do
  let whole := cs.takeWhile Char.isDigit
  let (fraction, rest) := match cs.dropWhile Char.isDigit with
    | '.' :: rest => (rest.takeWhile Char.isDigit, rest.dropWhile Char.isDigit)
    | rest => ([], rest)
  let exponent ← exponentOf? rest
  if (whole ++ fraction).isEmpty then none
  else
    let x := Decimal.toFloat (Decimal.ofDigits 10 (whole ++ fraction)) (exponent - fraction.length)
    if x.isFinite then some x else none

def infinity : Float := Float.ofBits 0x7ff0000000000000

def floatOf? (text : String) : Option Float :=
  if [".inf", ".Inf", ".INF", "+.inf", "+.Inf", "+.INF"].contains text then some infinity
  else if ["-.inf", "-.Inf", "-.INF"].contains text then some (-infinity)
  else if [".nan", ".NaN", ".NAN"].contains text then some (Float.ofBits 0x7ff8000000000000)
  else match text.toList with
    | '-' :: rest => (decimalOf? rest).map (-·)
    | '+' :: rest => decimalOf? rest
    | rest => decimalOf? rest

def meaningOfPlain (text : String) : Meaning :=
  if ["", "~", "null", "Null", "NULL"].contains text then .nothing
  else if ["true", "True", "TRUE"].contains text then .bool true
  else if ["false", "False", "FALSE"].contains text then .bool false
  else
    let number? : Option Meaning := do
      let n ← integerOf? text.toList
      if -Nat.pow 2 63 ≤ n ∧ n < Nat.pow 2 64 then some (.integer n)
      else if -Nat.pow 2 127 ≤ n ∧ n < Nat.pow 2 128 then some (.wide n)
      else none
    let float? : Option Meaning :=
      if isPaddedDigits text.toList then none else (floatOf? text).map .float
    (number?.or float?).getD (.text text)

def meaning (s : Scalar) : Meaning :=
  if s.isPlain then meaningOfPlain s.text else .text s.text

end Scalar

def Meaning.same : Meaning → Meaning → Bool
  | nothing, nothing => true
  | bool a, bool b => a = b
  | integer a, integer b => a = b
  | wide a, wide b => a = b
  | float a, float b => a == b || (a.isNaN && b.isNaN)
  | text a, text b => a = b
  | _, _ => false

end FoamDict.Yaml
