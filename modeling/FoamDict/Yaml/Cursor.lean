/-!
# Places in a YAML text

A cursor is a place in a text with the rest of the text behind it and the number of characters left.
Indentation needs its column, and keys need its line.
-/

namespace FoamDict.Yaml

def isBlank (c : Char) : Bool := c = ' ' || c = '\t'

def isBreak (c : Char) : Bool :=
  c = '\n' || c = '\r' || c = '\x85' || c = '\u2028' || c = '\u2029'

def isAllowed (c : Char) : Bool :=
  c = '\t' || c = '\n' || c = '\r' || c = '\x85' || (0x20 ≤ c.val && c.val ≤ 0x7e)
    || (0xa0 ≤ c.val && c.val ≤ 0xfffd) || 0x10000 ≤ c.val

structure Cursor where
  rest : List Char
  left : Nat := rest.length
  line : Nat := 0
  column : Nat := 0

/-- What one turn of a repetition comes to. -/
inductive Turn (α σ : Type) where
  | more (place : α) (state : σ)
  | done (place : α) (state : σ)

namespace Cursor

def peek? (c : Cursor) : Option Char := c.rest.head?

def atEnd (c : Cursor) : Bool := c.rest.isEmpty

/-- Whether the character `offset` places on satisfies `p`. -/
def sees (c : Cursor) (offset : Nat) (p : Char → Bool) : Bool := c.rest[offset]?.any p

def startsWith (c : Cursor) (word : List Char) : Bool := word.isPrefixOf c.rest

/-- Whether a blank, a line break or the end of the text stands `offset` places on. -/
def gapAt (c : Cursor) (offset : Nat) : Bool :=
  c.rest[offset]?.all fun d => isBlank d || isBreak d

/-- Go on by `n` characters of the same line. -/
def advance (c : Cursor) (n : Nat) : Cursor :=
  ⟨c.rest.drop n, c.left - n, c.line, c.column + n⟩

def advanceWhile (c : Cursor) (p : Char → Bool) : Cursor :=
  c.advance (c.rest.takeWhile p).length

/-- Take a line break. All but the line and paragraph separators count as a line feed. -/
def takeBreak? (c : Cursor) : Option (Char × Cursor) :=
  match c.rest with
  | '\r' :: '\n' :: rest => some ('\n', ⟨rest, c.left - 2, c.line + 1, 0⟩)
  | d :: rest =>
    if isBreak d then
      let kept := if d = '\u2028' ∨ d = '\u2029' then d else '\n'
      some (kept, ⟨rest, c.left - 1, c.line + 1, 0⟩)
    else none
  | [] => none

/-- Go past the blanks, and past a comment if one follows. -/
def skipComment (c : Cursor) : Cursor :=
  let c := c.advanceWhile isBlank
  if c.sees 0 (· = '#') then c.advanceWhile (!isBreak ·) else c

/-- Whether one of the marks between documents stands here. -/
def atDocumentMark (c : Cursor) : Bool :=
  c.column = 0 && (c.startsWith ['-', '-', '-'] || c.startsWith ['.', '.', '.']) && c.gapAt 3

/-- Repeat `step`, which has to take at least one character in each turn but the last. -/
def loop {σ : Type} (step : Cursor → σ → Option (Turn Cursor σ)) (c : Cursor) (state : σ) :
    Option (Cursor × σ) :=
  match step c state with
  | none => none
  | some (.done place result) => some (place, result)
  | some (.more place next) =>
    if place.left < c.left then loop step place next else none
termination_by c.left

end Cursor

end FoamDict.Yaml
