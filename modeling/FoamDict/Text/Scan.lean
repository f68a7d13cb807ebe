import FoamDict.Text.Column

/-!
# Scanning a line

What a scan looks for is given by a rule that answers, for a place in the line, how many characters
an occurrence starting there takes; zero means that none starts there. The place is given by the
character before it and the characters after it. A scan goes from left to right, takes the first
occurrence it meets and continues behind it, so occurrences never overlap.
-/

namespace FoamDict.Text

/-- What a scan takes. Its start is counted as the scan counts: in columns, or in bytes. -/
structure Occurrence where
  start : Nat
  text : List Char
  deriving DecidableEq

namespace Occurrence

def width (o : Occurrence) : Nat := units o.text

def stop (o : Occurrence) : Nat := o.start + o.width

end Occurrence

/-- The length of an occurrence at a place, from the character before it and the rest of the
line. -/
abbrev LengthRule := Option Char → List Char → Nat

/-- Scan on from a place, of which the next `skip` characters are already taken. The place counts
the characters before it by their size. -/
def scanFrom (size : Char → Nat) (rule : LengthRule) :
    Option Char → Nat → Nat → List Char → List Occurrence
  | _, _, _, [] => []
  | _, place, skip + 1, c :: cs => scanFrom size rule (some c) (place + size c) skip cs
  | before, place, 0, c :: cs =>
    match rule before (c :: cs) with
    | 0 => scanFrom size rule (some c) (place + size c) 0 cs
    | n + 1 => ⟨place, c :: cs.take n⟩ :: scanFrom size rule (some c) (place + size c) n cs

def occurrences (rule : LengthRule) (line : List Char) : List Occurrence :=
  scanFrom unitsOf rule none 0 0 line

@[simp] theorem occurrences_nil (rule : LengthRule) : occurrences rule [] = [] := rfl

/-- The bytes of what a scan takes. -/
def byteRanges (rule : LengthRule) (line : List Char) : List ByteRange :=
  (scanFrom Char.utf8Size rule none 0 0 line).map fun o => ⟨o.start, o.start + bytes o.text⟩

end FoamDict.Text
