/-!
# Columns

Columns count UTF-16 code units: a character outside the basic plane takes two. Byte offsets count
the bytes of the line in UTF-8; an offset has a column when it falls between two characters. On an
ASCII line every offset is its own column, and no bound is put on it.
-/

namespace FoamDict.Text

def unitsOf (c : Char) : Nat := if c.val < 0x10000 then 1 else 2

theorem unitsOf_pos (c : Char) : 0 < unitsOf c := by
  unfold unitsOf; split <;> decide

/-- The sizes of some characters, added up. -/
def measure (size : Char → Nat) (cs : List Char) : Nat := cs.foldr (fun c n => size c + n) 0

section Measure

variable (size : Char → Nat)

@[simp] theorem measure_nil : measure size [] = 0 := rfl

@[simp] theorem measure_cons (c : Char) (cs : List Char) :
    measure size (c :: cs) = size c + measure size cs := rfl

@[simp] theorem measure_append (cs ds : List Char) :
    measure size (cs ++ ds) = measure size cs + measure size ds := by
  induction cs with
  | nil => simp
  | cons c cs ih => simp [ih, Nat.add_assoc]

end Measure

def units (cs : List Char) : Nat := measure unitsOf cs

@[simp] theorem units_nil : units [] = 0 := rfl

@[simp] theorem units_cons (c : Char) (cs : List Char) :
    units (c :: cs) = unitsOf c + units cs := rfl

@[simp] theorem units_append (cs ds : List Char) :
    units (cs ++ ds) = units cs + units ds := measure_append unitsOf cs ds

def bytes (cs : List Char) : Nat := measure Char.utf8Size cs

@[simp] theorem bytes_nil : bytes [] = 0 := rfl

@[simp] theorem bytes_cons (c : Char) (cs : List Char) :
    bytes (c :: cs) = c.utf8Size + bytes cs := rfl

@[simp] theorem bytes_append (cs ds : List Char) :
    bytes (cs ++ ds) = bytes cs + bytes ds := measure_append Char.utf8Size cs ds

/-- How many leading characters lie within the first `column` units; a column between the two
halves of a surrogate pair leaves the pair out. -/
def fitting : Nat → List Char → Nat
  | _, [] => 0
  | column, c :: cs => if unitsOf c ≤ column then fitting (column - unitsOf c) cs + 1 else 0

theorem fitting_le_length (column : Nat) (cs : List Char) : fitting column cs ≤ cs.length := by
  induction cs generalizing column with
  | nil => simp [fitting]
  | cons c cs ih =>
    unfold fitting
    split
    · exact Nat.succ_le_succ (ih _)
    · exact Nat.zero_le _

/-- A stretch of one line, in columns; `stop` is exclusive. -/
structure Extent where
  line : Nat
  start : Nat
  stop : Nat
  deriving DecidableEq

def Extent.ofLine (index : Nat) (line : List Char) : Extent := ⟨index, 0, units line⟩

/-- A stretch of one line, in bytes; `last` is exclusive. -/
structure ByteRange where
  first : Nat
  last : Nat
  deriving DecidableEq

def isAscii (line : List Char) : Bool := line.all fun c => c.val < 128

/-- The characters before a byte offset that falls between two characters. -/
def beforeByte? : Nat → List Char → Option (List Char)
  | 0, _ => some []
  | _ + 1, [] => none
  | offset + 1, c :: cs =>
    if c.utf8Size ≤ offset + 1 then (beforeByte? (offset + 1 - c.utf8Size) cs).map (c :: ·)
    else none

/-- The characters of a range whose ends both fall between two characters. -/
def slice? (line : List Char) (r : ByteRange) : Option (List Char) := do
  let before ← beforeByte? r.first line
  let through ← beforeByte? r.last line
  if r.first ≤ r.last then some (through.drop before.length) else none

def column? (line : List Char) (offset : Nat) : Option Nat :=
  if isAscii line then some offset else (beforeByte? offset line).map units

/-- Start column and width of the bytes from `first` to `last`. -/
def columnSpan? (line : List Char) (first last : Nat) : Option (Nat × Nat) := do
  let start ← column? line first
  let stop ← column? line last
  if start ≤ stop then some (start, stop - start) else none

end FoamDict.Text
