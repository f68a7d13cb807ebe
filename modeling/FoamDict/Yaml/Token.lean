import FoamDict.Yaml.Scalar.Block
import FoamDict.Yaml.Scalar.Plain
import FoamDict.Yaml.Scalar.Quoted
import FoamDict.Yaml.Scalar

/-!
# Tokens

A text is cut into tokens. Indentation opens and closes block collections. A mapping key needs no
mark of its own: a scalar or bracketed collection becomes one when a colon follows on its line, and
the tokens for the key are then put in front of it.
-/

namespace FoamDict.Yaml

inductive Token where
  | documentStart
  | documentEnd
  | blockSequenceStart
  | blockMappingStart
  | blockEnd
  | flowSequenceStart
  | flowSequenceEnd
  | flowMappingStart
  | flowMappingEnd
  | entry
  | comma
  | key
  | value
  | scalar (s : Scalar)
  deriving DecidableEq

/-- A place that becomes a mapping key if a colon follows soon enough. -/
structure KeyCandidate where
  /-- How many tokens stand before it. -/
  position : Nat
  /-- How many characters were left there. -/
  left : Nat
  line : Nat
  column : Nat
  required : Bool

structure Lexer where
  cursor : Cursor
  tokens : Array Token := #[]
  /-- The columns of the open block collections, innermost first. -/
  indents : List Nat := []
  keyAllowed : Bool := true
  /-- The candidate outside brackets. -/
  candidate : Option KeyCandidate := none
  /-- For each open bracket, innermost first, the candidate in front of it. -/
  brackets : List (Option KeyCandidate) := []

namespace Lexer

def inFlow (l : Lexer) : Bool := !l.brackets.isEmpty

def emit (l : Lexer) (t : Token) : Lexer := { l with tokens := l.tokens.push t }

def advance (l : Lexer) (n : Nat) : Lexer := { l with cursor := l.cursor.advance n }

def isIndentedBelow (l : Lexer) (column : Nat) : Bool := l.indents.head?.all (· < column)

/-- A candidate stays one for 1024 characters of its line. -/
def isFresh (l : Lexer) (k : KeyCandidate) : Bool :=
  k.line = l.cursor.line && k.left ≤ l.cursor.left + 1024

/-- Give up the candidate; it must not stand where only a key can stand. -/
def dropCandidate (l : Lexer) : Option Lexer :=
  if l.candidate.any (·.required) then none else some { l with candidate := none }

/-- Make the place of the cursor the candidate, if a key may stand here. -/
def noteCandidate (l : Lexer) : Option Lexer :=
  if l.keyAllowed then
    let here : KeyCandidate :=
      ⟨l.tokens.size, l.cursor.left, l.cursor.line, l.cursor.column,
        !l.inFlow && l.indents.head? = some l.cursor.column⟩
    l.dropCandidate.map ({ · with candidate := some here })
  else some l

/-- Open a block collection at `column` if that is deeper than the innermost open one. -/
def openBlock (l : Lexer) (column position : Nat) (t : Token) : Lexer :=
  if !l.inFlow && l.isIndentedBelow column then
    { l with
      indents := column :: l.indents
      tokens := (l.tokens.toList.take position ++ t :: l.tokens.toList.drop position).toArray }
  else l

def closeBlocksFrom (keep : Nat → Bool) (tokens : Array Token) : List Nat → Array Token × List Nat
  | [] => (tokens, [])
  | indent :: outer =>
    if keep indent then (tokens, indent :: outer)
    else closeBlocksFrom keep (tokens.push .blockEnd) outer

/-- Close the block collections whose column does not satisfy `keep`, innermost first. -/
def closeBlocks (l : Lexer) (keep : Nat → Bool) : Lexer :=
  if l.inFlow then l
  else
    let (tokens, indents) := closeBlocksFrom keep l.tokens l.indents
    { l with tokens := tokens, indents := indents }

/-- One turn over what may stand between tokens. A tab may stand only where no key can start. -/
def skipStep (l : Lexer) (c : Cursor) (keyAllowed : Bool) : Option (Turn Cursor Bool) :=
  let c := c.advanceWhile fun d => d = ' ' || (d = '\t' && (l.inFlow || !keyAllowed))
  let c := if c.sees 0 (· = '#') then c.advanceWhile (!isBreak ·) else c
  match c.takeBreak? with
  | some (_, below) => some (.more below (keyAllowed || !l.inFlow))
  | none => some (.done c keyAllowed)

/-- Go on to the next token; outside brackets a key may start on a new line. -/
def skip (l : Lexer) : Option Lexer := do
  let (cursor, keyAllowed) ← l.cursor.loop (skipStep l) l.keyAllowed
  return { l with cursor := cursor, keyAllowed := keyAllowed }

def documentMark (l : Lexer) (t : Token) : Option Lexer := do
  let l ← (l.closeBlocks fun _ => false).dropCandidate
  return ({ l with keyAllowed := false }.advance 3).emit t

def openBracket (l : Lexer) (t : Token) : Option Lexer := do
  let l ← l.noteCandidate
  return ({ l with
    brackets := l.candidate :: l.brackets, candidate := none, keyAllowed := true }.advance 1).emit t

def closeBracket (l : Lexer) (t : Token) : Option Lexer := do
  let l ← l.dropCandidate
  let l := match l.brackets with
    | outer :: brackets => { l with candidate := outer, brackets := brackets }
    | [] => l
  return ({ l with keyAllowed := false }.advance 1).emit t

def comma (l : Lexer) : Option Lexer := do
  let l ← l.dropCandidate
  return ({ l with keyAllowed := true }.advance 1).emit .comma

def entry (l : Lexer) : Option Lexer := do
  if !l.inFlow && !l.keyAllowed then none
  let l ← (l.openBlock l.cursor.column l.tokens.size .blockSequenceStart).dropCandidate
  return ({ l with keyAllowed := true }.advance 1).emit .entry

def keyMark (l : Lexer) : Option Lexer := do
  if !l.inFlow && !l.keyAllowed then none
  let l ← (l.openBlock l.cursor.column l.tokens.size .blockMappingStart).dropCandidate
  return ({ l with keyAllowed := !l.inFlow }.advance 1).emit .key

/-- A colon makes the candidate a key. Without one, the key before it is left out. -/
def valueMark (l : Lexer) : Option Lexer := do
  match l.candidate.filter l.isFresh with
  | some k =>
    let tokens := l.tokens.toList.take k.position ++ .key :: l.tokens.toList.drop k.position
    let l := { l with tokens := tokens.toArray }.openBlock k.column k.position .blockMappingStart
    return ({ l with candidate := none, keyAllowed := false }.advance 1).emit .value
  | none =>
    if !l.inFlow && !l.keyAllowed then none
    let l := l.openBlock l.cursor.column l.tokens.size .blockMappingStart
    return ({ l with keyAllowed := !l.inFlow }.advance 1).emit .value

def emitScalar (l : Lexer) (isPlain : Bool) (text : List Char) : Lexer :=
  l.emit (.scalar ⟨isPlain, String.ofList text⟩)

def blockScalar (l : Lexer) (folded : Bool) : Option Lexer := do
  let l ← l.dropCandidate
  let (cursor, text) ← Block.read folded l.indents.head? (l.cursor.advance 1)
  return { l with cursor := cursor, keyAllowed := true }.emitScalar false text

def quotedScalar (l : Lexer) (double : Bool) : Option Lexer := do
  let l ← l.noteCandidate
  let (cursor, text) ← Quoted.read double (l.cursor.advance 1)
  return { l with cursor := cursor, keyAllowed := false }.emitScalar false text

def plainScalar (l : Lexer) : Option Lexer := do
  let l ← l.noteCandidate
  let deeper := match l.indents.head? with
    | some column => column + 1
    | none => 0
  let (cursor, text, crossesLine) ← Plain.read l.inFlow deeper l.cursor
  return { l with cursor := cursor, keyAllowed := crossesLine }.emitScalar true text

/-- Whether a plain scalar may start with this character, which starts no other token here. -/
def startsPlain (l : Lexer) (d : Char) : Bool :=
  if d = '-' then !l.cursor.sees 1 isBlank
  else if d = '?' ∨ d = ':' then !l.inFlow && !l.cursor.gapAt 1
  else !isBlank d && !isBracket d && !",#&*!|>'\"%@\x60".contains d

def token (l : Lexer) (d : Char) : Option Lexer :=
  let marked := l.inFlow || l.cursor.gapAt 1
  if l.cursor.atDocumentMark then l.documentMark (if d = '-' then .documentStart else .documentEnd)
  else if l.cursor.column = 0 && d = '%' then none
  else match d with
    | '[' => l.openBracket .flowSequenceStart
    | ']' => l.closeBracket .flowSequenceEnd
    | '\x7b' => l.openBracket .flowMappingStart
    | '\x7d' => l.closeBracket .flowMappingEnd
    | ',' => l.comma
    | '\'' => l.quotedScalar false
    | '"' => l.quotedScalar true
    | d =>
      if d = '-' ∧ l.cursor.gapAt 1 then l.entry
      else if d = '?' ∧ marked then l.keyMark
      else if d = ':' ∧ marked then l.valueMark
      else if d = '|' ∧ !l.inFlow then l.blockScalar false
      else if d = '>' ∧ !l.inFlow then l.blockScalar true
      else if l.startsPlain d then l.plainScalar
      else none

/-- Read tokens until the text ends, then close what is open. -/
def run (l : Lexer) : Option (Array Token) :=
  match l.skip with
  | none => none
  | some l' =>
    match l'.cursor.peek? with
    | none => ((l'.closeBlocks fun _ => false).dropCandidate).map (·.tokens)
    | some d =>
      match (l'.closeBlocks (· ≤ l'.cursor.column)).token d with
      | none => none
      | some next => if next.cursor.left < l.cursor.left then run next else none
termination_by l.cursor.left

end Lexer

/-- A byte order mark may stand at the start of a text. -/
def dropMark : List Char → List Char
  | '\uFEFF' :: cs => cs
  | cs => cs

def tokens? (cs : List Char) : Option (List Token) :=
  if cs.all isAllowed then (Lexer.run { cursor := { rest := dropMark cs } }).map (·.toList)
  else none

end FoamDict.Yaml
