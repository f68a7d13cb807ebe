import FoamDict.Decimal.Digits

/-!
# Decimal numbers and floats

A decimal number is a natural number times a power of ten. Every finite float has a shortest one
that reads back as the same float: of the decimal grids that have a point close enough to the float,
the coarsest, and of its points the nearest.
-/

namespace FoamDict.Decimal

/-- The float nearest to `digits · 10 ^ exponent`. The bounds keep the powers of ten small: beyond
them the answer is infinite or zero. -/
def toFloat (digits : Nat) (exponent : Int) : Float :=
  let magnitude := (Nat.toDigits 10 digits).length + exponent
  if digits = 0 || magnitude < -400 then 0
  else if magnitude > 400 then Float.ofBits 0x7ff0000000000000
  else Float.ofScientific digits (exponent < 0) exponent.natAbs

/-- Whether `a · 2 ^ p ≤ b · 10 ^ k`. -/
def leScaled (a : Nat) (p : Int) (b : Nat) (k : Int) : Bool :=
  a * Nat.pow 2 p.toNat * Nat.pow 10 (-k).toNat ≤ b * Nat.pow 10 k.toNat * Nat.pow 2 (-p).toNat

/-- Whether `b · 10 ^ k ≤ a · 2 ^ p`. -/
def scaledLe (b : Nat) (k : Int) (a : Nat) (p : Int) : Bool :=
  b * Nat.pow 10 k.toNat * Nat.pow 2 (-p).toNat ≤ a * Nat.pow 2 p.toNat * Nat.pow 10 (-k).toNat

/-- The numbers `a · 2 ^ scale` that round to one float: `lower ≤ a ≤ upper` around `value`, with
the two ends left out unless `closed`. -/
structure Rounding where
  lower : Nat
  value : Nat
  upper : Nat
  scale : Int
  closed : Bool

namespace Rounding

/-- The rounding interval of `mantissa · 2 ^ exponent`; below a power of two, floats lie closer. -/
def around (mantissa : Nat) (exponent : Int) (atPowerOfTwo : Bool) : Rounding where
  lower := 4 * mantissa - if atPowerOfTwo then 1 else 2
  value := 4 * mantissa
  upper := 4 * mantissa + 2
  scale := exponent - 2
  closed := mantissa % 2 = 0

def holds (r : Rounding) (point : Nat) (k : Int) : Bool :=
  leScaled r.lower r.scale point k && scaledLe point k r.upper r.scale
    && (r.closed || !(scaledLe point k r.lower r.scale || leScaled r.upper r.scale point k))

/-- The point of the grid `10 ^ k` at or below the value. -/
def pointBelow (r : Rounding) (k : Int) : Nat :=
  (r.value * Nat.pow 2 r.scale.toNat * Nat.pow 10 (-k).toNat)
    / (Nat.pow 10 k.toNat * Nat.pow 2 (-r.scale).toNat)

/-- Whether the value is nearer to `point` than to the next point of the grid `10 ^ k`. -/
def nearerBelow (r : Rounding) (point : Nat) (k : Int) : Bool :=
  leScaled (2 * r.value) r.scale (2 * point + 1) k

/-- The point of the grid `10 ^ k` that rounds to the float and is nearest to its value. -/
def pointOn? (r : Rounding) (k : Int) : Option Nat :=
  let below := r.pointBelow k
  match r.holds below k, r.holds (below + 1) k with
  | true, true => some (if r.nearerBelow below k then below else below + 1)
  | true, false => some below
  | false, true => some (below + 1)
  | false, false => none

/-- Search the grids from `10 ^ (steps - 400)` downwards. -/
def shortestFrom (r : Rounding) : Nat → Nat × Int
  | 0 => (0, 0)
  | steps + 1 =>
    let k := (steps : Int) - 400
    match r.pointOn? k with
    | some point => (point, k)
    | none => r.shortestFrom steps

def shortest (r : Rounding) : Nat × Int := r.shortestFrom 720

end Rounding

/-- The shortest digits of a number, with as many zeros behind or in front as its exponent asks
for; a point only where there is a fraction. -/
def plainDigits (digits : Nat) (exponent : Int) : String :=
  let cs := Nat.toDigits 10 digits
  if 0 ≤ exponent then String.ofList (cs ++ List.replicate exponent.toNat '0')
  else
    let places := exponent.natAbs
    let padded := List.replicate (places + 1 - cs.length) '0' ++ cs
    let whole := padded.length - places
    String.ofList (padded.take whole ++ '.' :: padded.drop whole)

/-- A float in its shortest digits, never with an exponent. -/
def plain (x : Float) : String :=
  let bits := x.toBits.toNat
  let sign := if bits / Nat.pow 2 63 = 1 then "-" else ""
  let exponent := bits / Nat.pow 2 52 % 2048
  let fraction := bits % Nat.pow 2 52
  if exponent = 2047 then
    if fraction = 0 then sign ++ "inf" else "NaN"
  else if exponent = 0 then
    if fraction = 0 then sign ++ "0"
    else
      let (digits, k) := (Rounding.around fraction (-1074) false).shortest
      sign ++ plainDigits digits k
  else
    let mantissa := Nat.pow 2 52 + fraction
    let (digits, k) :=
      (Rounding.around mantissa (exponent - 1075) (fraction = 0 && exponent ≠ 1)).shortest
    sign ++ plainDigits digits k

/-- As `plain`, with `.0` behind a whole number. -/
def withPoint (x : Float) : String :=
  let text := plain x
  if x.isFinite && !text.contains '.' then text ++ ".0" else text

end FoamDict.Decimal
