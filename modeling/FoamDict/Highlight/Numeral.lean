import FoamDict.Text.Word

/-!
# Numerals

A numeral is an optional sign, digits with an optional fraction or a fraction alone, and an optional
exponent, with a word boundary at both ends. A sign therefore counts only directly behind a word
character. At each place the readings are tried in a fixed order, and the first one that ends at a
word boundary is taken: the longest fraction before an empty one before none, and with the exponent
before without it.
-/

namespace FoamDict.Highlight.Numeral

open FoamDict.Text

def digits (cs : List Char) : Nat := (cs.takeWhile Char.isDigit).length

def signLength : List Char → Nat
  | c :: _ => if c = '+' ∨ c = '-' then 1 else 0
  | [] => 0

/-- The mantissas at a place, in the order in which they are tried. A run of digits is taken whole:
no boundary lies inside it. -/
def mantissaLengths (cs : List Char) : List Nat :=
  match digits cs, cs.dropWhile Char.isDigit with
  | 0, '.' :: rest => if digits rest = 0 then [] else [digits rest + 1]
  | 0, _ => []
  | whole, '.' :: rest =>
    if digits rest = 0 then [whole + 1, whole]
    else [whole + 1 + digits rest, whole + 1, whole]
  | whole, _ => [whole]

/-- Zero where no exponent starts. -/
def exponentLength : List Char → Nat
  | c :: rest =>
    if c = 'e' ∨ c = 'E' then
      let sign := signLength rest
      let power := digits (rest.drop sign)
      if power = 0 then 0 else 1 + sign + power
    else 0
  | [] => 0

def readings (cs : List Char) : List Nat :=
  let sign := signLength cs
  (mantissaLengths (cs.drop sign)).flatMap fun mantissa =>
    let bare := sign + mantissa
    match exponentLength (cs.drop bare) with
    | 0 => [bare]
    | power => [bare + power, bare]

def endsAtBoundary (cs : List Char) (length : Nat) : Bool :=
  isBoundary (cs.take length).getLast? (cs.drop length).head?

def lengthAt : LengthRule := fun before rest =>
  if isBoundary before rest.head? then ((readings rest).find? (endsAtBoundary rest)).getD 0 else 0

end Numeral

def numerals (line : List Char) : List Text.Occurrence := Text.occurrences Numeral.lengthAt line

end FoamDict.Highlight
