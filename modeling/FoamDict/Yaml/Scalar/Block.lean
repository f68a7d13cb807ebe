import FoamDict.Decimal.Digits
import FoamDict.Yaml.Cursor

/-!
# Block scalars

A block scalar takes the indented lines below its header. Literal blocks keep their line breaks;
folded blocks join lines that do not start with a blank. The header may fix the indentation and says
what becomes of the line breaks at the end: one is kept, none, or all.
-/

namespace FoamDict.Yaml.Block

inductive Chomping where
  | strip
  | clip
  | keep
  deriving DecidableEq

/-- What the header says; `increment` is zero if the first line fixes the indentation. -/
structure Header where
  chomping : Chomping := .clip
  increment : Nat := 0

def chompingOf? : Char → Option Chomping
  | '+' => some .keep
  | '-' => some .strip
  | _ => none

/-- The indentation digit, if there is one; it must not be zero. -/
def readIncrement (c : Cursor) : Option (Cursor × Nat) :=
  match c.peek?.filter Char.isDigit with
  | none => some (c, 0)
  | some d => if d = '0' then none else some (c.advance 1, Decimal.ofDigits 10 [d])

def readChomping (c : Cursor) : Option (Cursor × Chomping) :=
  (c.peek?.bind chompingOf?).map (c.advance 1, ·)

def readHeader (c : Cursor) : Option (Cursor × Header) := do
  match readChomping c with
  | some (next, chomping) =>
    let (next, increment) ← readIncrement next
    return (next, ⟨chomping, increment⟩)
  | none =>
    let (next, increment) ← readIncrement c
    if increment = 0 then return (next, {})
    match readChomping next with
    | some (last, chomping) => return (last, ⟨chomping, increment⟩)
    | none => return (next, ⟨.clip, increment⟩)

/-- Breaks between lines, and the deepest column met between them. -/
structure Breaks where
  breaks : List Char := []
  deepest : Nat := 0

/-- An indentation of zero is still to be found out. -/
def breaksStep (indent : Nat) (c : Cursor) (b : Breaks) : Option (Turn Cursor Breaks) :=
  let spaces := (c.rest.takeWhile (· = ' ')).length
  let next := c.advance (if indent = 0 then spaces else min spaces (indent - c.column))
  let b := { b with deepest := max b.deepest next.column }
  if (indent = 0 || next.column < indent) && next.sees 0 (· = '\t') then none
  else match next.takeBreak? with
    | some (d, below) => some (.more below { b with breaks := b.breaks ++ [d] })
    | none => some (.done next b)

def readBreaks (indent : Nat) (c : Cursor) : Option (Cursor × Breaks) :=
  c.loop (breaksStep indent) {}

/-- Text read so far, the break behind its last line, and the breaks of empty lines behind that. -/
structure Progress where
  text : List Char := []
  lastBreak : List Char := []
  emptyLines : List Char := []
  lastIndented : Bool := false

/-- How the next line is joined to the text; `indented` tells whether it starts with a blank. -/
def Progress.joint (p : Progress) (folded indented : Bool) : List Char :=
  if folded && p.lastBreak = ['\n'] && !p.lastIndented && !indented then
    if p.emptyLines.isEmpty then [' '] else p.emptyLines
  else p.lastBreak ++ p.emptyLines

/-- One line and the empty lines behind it. -/
def lineStep (folded : Bool) (indent : Nat) (c : Cursor) (p : Progress) :
    Option (Turn Cursor Progress) := do
  if c.column ≠ indent || c.atEnd then return .done c p
  let indented := c.sees 0 isBlank
  let line := c.rest.takeWhile (!isBreak ·)
  let text := p.text ++ p.joint folded indented ++ line
  let next := c.advance line.length
  let (lastBreak, next) := match next.takeBreak? with
    | some (d, below) => ([d], below)
    | none => ([], next)
  let (next, b) ← readBreaks indent next
  return .more next ⟨text, lastBreak, b.breaks, indented⟩

def chomped (chomping : Chomping) (p : Progress) : List Char :=
  match chomping with
  | .strip => p.text
  | .clip => p.text ++ p.lastBreak
  | .keep => p.text ++ p.lastBreak ++ p.emptyLines

/-- The text of a block scalar whose `|` or `>` is taken already. What holds the block is indented
to column `parent`, if at all. -/
def read (folded : Bool) (parent : Option Nat) (c : Cursor) : Option (Cursor × List Char) := do
  let (c, header) ← readHeader c
  let c := c.skipComment
  let c ← if c.atEnd then some c else c.takeBreak?.map (·.2)
  let fixed := if header.increment = 0 then 0 else parent.getD 0 + header.increment
  let (c, b) ← readBreaks fixed c
  let deeper := match parent with
    | some column => column + 1
    | none => 1
  let indent := if fixed = 0 then max b.deepest deeper else fixed
  let (c, p) ← c.loop (lineStep folded indent) { emptyLines := b.breaks }
  return (c, chomped header.chomping p)

end FoamDict.Yaml.Block
