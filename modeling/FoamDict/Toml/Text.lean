import FoamDict.Decimal.Digits
import FoamDict.Text.Reader

/-!
# Strings, keys, and what stands between tokens

Strings are written between quotes, on one line or between tripled quotes on several. Only double
quotes know escapes. Line breaks within a string are read as line feeds.
-/

namespace FoamDict.Toml

open FoamDict.Text

def isSpace (c : Char) : Bool := c = ' ' || c = '\t'

/-- The characters of comments and strings: no control character other than the tab. -/
def isTextChar (c : Char) : Bool := c = '\t' || (0x20 ≤ c.val && c.val ≠ 0x7f)

def skipSpaces : Reader Unit := do let _ ← Reader.takeWhile isSpace

/-- Take a line break, if one comes next; a carriage return alone is none. -/
def skipBreak? : Reader Bool := do
  if ← Reader.skip? '\n' then pure true else Reader.skipAll? ['\r', '\n']

def skipComment? : Reader Bool := do
  if ← Reader.skip? '#' then
    let _ ← Reader.takeWhile isTextChar
    pure true
  else pure false

/-- The end of a line: spaces and a comment may stand before it. -/
def skipLineEnd : Reader Unit := do
  skipSpaces
  let _ ← skipComment?
  unless ← skipBreak? do Reader.guard (← Reader.atEnd)

/-- One line break between the values of an array, with the comment before it. -/
def readGapItem : Reader (Option Unit) := do
  skipSpaces
  if ← skipComment? then
    Reader.guard (← skipBreak?)
    pure (some ())
  else if ← skipBreak? then pure (some ())
  else pure none

def skipGap : Reader Unit := do let _ ← Reader.collect readGapItem

/-- The character that hexadecimal digits name. -/
def readCode (count : Nat) : Reader Char := do
  let digits ← Reader.take count
  Reader.guard (digits.length = count)
  let code ← Reader.ofOption (Decimal.ofDigits? 16 digits)
  Reader.guard code.isValidChar
  pure (Char.ofNat code)

def readEscape : Reader Char := do
  match ← Reader.next with
  | 'b' => pure '\x08'
  | 't' => pure '\t'
  | 'n' => pure '\n'
  | 'f' => pure '\x0c'
  | 'r' => pure '\r'
  | '"' => pure '"'
  | '\\' => pure '\\'
  | 'u' => readCode 4
  | 'U' => readCode 8
  | _ => Reader.fail

/-- One character of a string on one line, or the quote behind the last. -/
def readCharBefore (quote : Char) : Reader (Option Char) := do
  let c ← Reader.next
  if c = quote then pure none
  else if c = '\\' ∧ quote = '"' then some <$> readEscape
  else
    Reader.guard (isTextChar c)
    pure (some c)

/-- Spaces or a line break behind a line that goes on. -/
def readBlankItem : Reader (Option Unit) := do
  let spaces ← Reader.takeWhile isSpace
  if ← skipBreak? then pure (some ())
  else pure (if spaces.isEmpty then none else some ())

/-- A backslash at the end of a line takes the spaces and line breaks behind it away. -/
def readContinuation : Reader Unit := do
  Reader.skip '\\'
  skipSpaces
  Reader.guard (← skipBreak?)
  let _ ← Reader.collect readBlankItem

/-- One character of a string on several lines, unless it is a quote. -/
def readLooseChar (quote : Char) : Reader (Option (List Char)) := do
  let continues ← if quote = '"' then Reader.attempt readContinuation else pure none
  if continues.isSome then pure (some [])
  else if ← skipBreak? then pure (some ['\n'])
  else Option.map (fun c => [c]) <$> readCharBefore quote

/-- A piece of a string on several lines, or the three quotes behind the last. One or two quotes are
text, also directly before those three. -/
def readPieceBefore (quote : Char) : Reader (Option (List Char)) := do
  let quotes ← Reader.peekWhile (· = quote)
  match quotes with
  | 0 => readLooseChar quote
  | 3 =>
    Reader.drop 3
    pure none
  | n =>
    Reader.guard (n ≤ 5)
    let count := if n < 3 then n else n - 3
    Reader.drop count
    pure (some (List.replicate count quote))

/-- A string whose opening quotes are taken already. A line break directly behind them is
dropped. -/
def readLines (quote : Char) : Reader String := do
  let _ ← skipBreak?
  return String.ofList (← Reader.collect (readPieceBefore quote)).flatten

def readString : Reader String := do
  let quote ← Reader.next
  Reader.guard (quote = '"' || quote = '\'')
  if ← Reader.skipAll? [quote, quote] then readLines quote
  else String.ofList <$> Reader.collect (readCharBefore quote)

def isBareKeyChar (c : Char) : Bool := c.isAlphanum || c = '_' || c = '-'

/-- One part of a key: bare, or a string on one line. -/
def readKeyPart : Reader String := do
  match ← Reader.peek? with
  | some '"' | some '\'' =>
    let quote ← Reader.next
    String.ofList <$> Reader.collect (readCharBefore quote)
  | _ => String.ofList <$> Reader.takeSome isBareKeyChar

/-- A further part behind a dot; spaces may stand around it. -/
def readFurtherPart : Reader (Option String) := do
  if ← Reader.skip? '.' then
    skipSpaces
    let part ← readKeyPart
    skipSpaces
    pure (some part)
  else pure none

/-- A key has less than 80 parts. -/
def readKey : Reader (List String) := do
  skipSpaces
  let head ← readKeyPart
  skipSpaces
  let parts ← Reader.collect readFurtherPart
  Reader.guard (parts.length + 1 < 80)
  pure (head :: parts)

end FoamDict.Toml
