import FoamDict.Decimal.Digits
import FoamDict.Yaml.Scalar.Gap

/-!
# Quoted scalars

Between single quotes only the quote itself is special and is written twice. Between double quotes a
backslash starts an escape; before a line break it joins the lines.
-/

namespace FoamDict.Yaml.Quoted

def escapeOf? : Char → Option Char
  | '0' => some '\x00'
  | 'a' => some '\x07'
  | 'b' => some '\x08'
  | 't' => some '\t'
  | '\t' => some '\t'
  | 'n' => some '\n'
  | 'v' => some '\x0b'
  | 'f' => some '\x0c'
  | 'r' => some '\r'
  | 'e' => some '\x1b'
  | ' ' => some ' '
  | '"' => some '"'
  | '/' => some '/'
  | '\\' => some '\\'
  | 'N' => some '\x85'
  | '_' => some '\xa0'
  | 'L' => some '\u2028'
  | 'P' => some '\u2029'
  | _ => none

/-- How many digits name the character of a numeric escape. -/
def digitsAfter : Char → Nat
  | 'x' => 2
  | 'u' => 4
  | 'U' => 8
  | _ => 0

/-- The character behind a backslash, and how many characters the escape takes with it. -/
def escape? (rest : List Char) : Option (Char × Nat) := do
  let letter ← rest.head?
  match escapeOf? letter with
  | some c => some (c, 2)
  | none =>
    let digits := (rest.drop 1).take (digitsAfter letter)
    if digits.length = digitsAfter letter then
      let code ← Decimal.ofDigits? 16 digits
      if code.isValidChar then some (Char.ofNat code, 2 + digits.length) else none
    else none

/-- Text read so far; `joined` after an escaped line break. -/
structure Run where
  text : List Char := []
  joined : Bool := false

/-- The characters that stand for themselves. -/
def isOrdinary (double : Bool) (c : Char) : Bool :=
  !isBlank c && !isBreak c && (if double then c ≠ '"' && c ≠ '\\' else c ≠ '\'')

/-- Ordinary characters or one escape of a run without gaps. -/
def runStep (double : Bool) (c : Cursor) (r : Run) : Option (Turn Cursor Run) :=
  match c.rest.takeWhile (isOrdinary double), c.rest with
  | [], '\'' :: '\'' :: _ =>
    some (.more (c.advance 2) { r with text := r.text ++ ['\''] })
  | [], '\\' :: rest =>
    match (c.advance 1).takeBreak? with
    | some (_, next) => some (.done next { r with joined := true })
    | none => do
      let (d, length) ← escape? rest
      return .more (c.advance length) { r with text := r.text ++ [d] }
  | [], _ => some (.done c r)
  | word, _ => some (.more (c.advance word.length) { r with text := r.text ++ word })

/-- A run and, unless the closing quote follows, the gap behind it. -/
def step (double : Bool) (c : Cursor) (text : List Char) : Option (Turn Cursor (List Char)) := do
  if c.atDocumentMark || c.atEnd then none
  let (next, run) ← c.loop (runStep double) {}
  let text := text ++ run.text
  if next.sees 0 (· = if double then '"' else '\'') then return .done (next.advance 1) text
  let (next, gap) ← Gap.read 0 run.joined next
  return .more next (text ++ gap.folded)

def read (double : Bool) (c : Cursor) : Option (Cursor × List Char) := c.loop (step double) []

end FoamDict.Yaml.Quoted
