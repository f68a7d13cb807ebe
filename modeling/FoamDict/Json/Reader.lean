import FoamDict.Decimal.Float
import FoamDict.Json.Value
import FoamDict.Text.Reader

/-!
# Reading JSON

A text is read as one value with blanks around it. Arrays and objects nest less than 128 deep.
Numbers too large for a float and escapes that name half a surrogate pair are no JSON.
-/

namespace FoamDict.Json

open FoamDict.Text

def isBlank (c : Char) : Bool := c = ' ' || c = '\t' || c = '\n' || c = '\r'

def skipBlanks : Reader Unit := do let _ ← Reader.takeWhile isBlank

def readUnit : Reader Nat := do
  let digits ← Reader.take 4
  Reader.guard (digits.length = 4)
  Reader.ofOption (Decimal.ofDigits? 16 digits)

/-- The character of a `\u` escape; the first half of a surrogate pair needs the second. -/
def readCodePoint : Reader Char := do
  let first ← readUnit
  if 0xd800 ≤ first ∧ first < 0xdc00 then
    Reader.skip '\\'
    Reader.skip 'u'
    let second ← readUnit
    Reader.guard (0xdc00 ≤ second && second < 0xe000)
    pure (Char.ofNat (0x10000 + (first - 0xd800) * 0x400 + (second - 0xdc00)))
  else
    Reader.guard !(0xdc00 ≤ first && first < 0xe000)
    pure (Char.ofNat first)

def readEscape : Reader Char := do
  match ← Reader.next with
  | '"' => pure '"'
  | '\\' => pure '\\'
  | '/' => pure '/'
  | 'b' => pure '\x08'
  | 'f' => pure '\x0c'
  | 'n' => pure '\n'
  | 'r' => pure '\r'
  | 't' => pure '\t'
  | 'u' => readCodePoint
  | _ => Reader.fail

def isPlain (c : Char) : Bool := c ≠ '"' && c ≠ '\\' && 0x20 ≤ c.val

/-- Plain characters or one escape, or the quote behind the last. -/
def readStringItem : Reader (Option (List Char)) := do
  let run ← Reader.takeWhile isPlain
  if !run.isEmpty then pure (some run)
  else match ← Reader.next with
    | '"' => pure none
    | '\\' => return some [← readEscape]
    | _ => Reader.fail

/-- A string whose opening quote is taken already. -/
def readString : Reader String := do
  return String.ofList (← Reader.collect readStringItem).flatten

/-- A number: no leading zeros, and digits on both sides of a point. -/
def readNumber : Reader Json := do
  let negative ← Reader.skip? '-'
  let whole ← Reader.takeSome Char.isDigit
  Reader.guard (whole.length = 1 || whole.head? ≠ some '0')
  let fraction ← if ← Reader.skip? '.' then Reader.takeSome Char.isDigit else pure []
  let scientific ← do if ← Reader.skip? 'e' then pure true else Reader.skip? 'E'
  let power : Int ←
    if scientific then do
      let down ← Reader.skip? '-'
      unless down do let _ ← Reader.skip? '+'
      let digits ← Reader.takeSome Char.isDigit
      let size := Decimal.ofDigits 10 digits
      pure (if down then -size else size)
    else pure 0
  let digits := Decimal.ofDigits 10 (whole ++ fraction)
  let isWhole := fraction.isEmpty && !scientific
  if isWhole && !negative && digits < Nat.pow 2 64 then pure (integer digits)
  else if isWhole && negative && 0 < digits && digits ≤ Nat.pow 2 63 then pure (integer (-digits))
  else
    let size := Decimal.toFloat digits (power - fraction.length)
    Reader.guard size.isFinite
    pure (float (if negative then -size else size))

def readName (name : String) (value : Json) : Reader Json := do
  Reader.guard (← Reader.skipAll? name.toList)
  pure value

/-- The next item of an array, or its end; `first` tells whether none has been read yet. -/
def readItem {α : Type} (item : Reader α) (close : Char) (first : Bool) : Reader (Option α) := do
  skipBlanks
  if ← Reader.skip? close then
    pure none
  else
    unless first do
      Reader.skip ','
      skipBlanks
    some <$> item

def readItems {α : Type} (item : Reader α) (close : Char) : Reader (List α) := do
  match ← readItem item close true with
  | none => pure []
  | some head => return head :: (← Reader.collect (readItem item close false))

def readMember (value : Reader Json) : Reader (String × Json) := do
  Reader.skip '"'
  let name ← readString
  skipBlanks
  Reader.skip ':'
  skipBlanks
  return (name, ← value)

/-- A value, with `nested` for what stands inside an array or an object, if anything may. -/
def readValueWith (nested : Option (Reader Json)) : Reader Json := do
  match ← Reader.peek? with
  | some '[' =>
    Reader.skip '['
    array <$> readItems (← Reader.ofOption nested) ']'
  | some '\x7b' =>
    Reader.skip '\x7b'
    object <$> readItems (readMember (← Reader.ofOption nested)) '\x7d'
  | some '"' =>
    Reader.skip '"'
    string <$> readString
  | some 'n' => readName "null" null
  | some 't' => readName "true" (bool true)
  | some 'f' => readName "false" (bool false)
  | _ => readNumber

/-- A value with at most `depth` arrays and objects inside each other. -/
def readValue : (depth : Nat) → Reader Json
  | 0 => readValueWith none
  | depth + 1 => readValueWith (some (readValue depth))

def readDocument : Reader Json := do
  skipBlanks
  let value ← readValue 127
  skipBlanks
  pure value

def read? (text : String) : Option Json := Reader.readAll? readDocument text.toList

end FoamDict.Json
