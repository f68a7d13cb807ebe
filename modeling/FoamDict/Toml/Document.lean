import FoamDict.Toml.Number
import FoamDict.Toml.Table
import FoamDict.Toml.Text

/-!
# TOML documents

A document is a sequence of lines, each of which may hold an assignment or the header of a table.
-/

namespace FoamDict.Toml

open FoamDict.Text

/-- The next value of an array, with the comma and the gap behind it, or the closing bracket. Only
the last value may lack its comma. -/
def readArrayItem (item : Reader Value) : Reader (Option Value) := do
  if ← Reader.skip? ']' then pure none
  else
    let v ← item
    skipGap
    if ← Reader.skip? ',' then skipGap
    else Reader.guard ((← Reader.peek?) = some ']')
    pure (some v)

def readArray (item : Reader Value) : Reader Value := do
  Reader.skip '['
  skipGap
  .array <$> Reader.collect (readArrayItem item)

/-- A key, an equals sign and a value. -/
def readAssignment (value : Reader Value) : Reader (List String × Value) := do
  let key ← readKey
  Reader.skip '='
  skipSpaces
  return (key, ← value)

def readTableItem (value : Reader Value) (first : Bool) :
    Reader (Option (List String × Value)) := do
  skipSpaces
  if ← Reader.skip? '\x7d' then pure none
  else
    unless first do Reader.skip ','
    let item ← readAssignment value
    pure (some item)

/-- A table on one line, without a comma behind its last entry. -/
def readInlineTable (value : Reader Value) : Reader Value := do
  Reader.skip '\x7b'
  let items ← match ← readTableItem value true with
    | none => pure []
    | some head => do
      let rest ← Reader.collect (readTableItem value false)
      pure (head :: rest)
  let entries ← Reader.ofOption
    (items.foldlM (fun es item => Entries.assign item.2 true item.1 es) ([] : Entries))
  pure (Item.table .defined entries).toValue

def readBool : Reader Value := do
  if ← Reader.skipAll? "true".toList then pure (.bool true)
  else
    Reader.guard (← Reader.skipAll? "false".toList)
    pure (.bool false)

/-- A value, with `nested` for what stands inside an array or a table, if anything may. -/
def readValueWith (nested : Option (Reader Value)) : Reader Value := do
  match ← Reader.peek? with
  | some '"' | some '\'' => .string <$> readString
  | some '[' => readArray (← Reader.ofOption nested)
  | some '\x7b' => readInlineTable (← Reader.ofOption nested)
  | some 't' | some 'f' => readBool
  | _ =>
    match ← Reader.attempt Datetime.read with
    | some d => pure (.datetime d)
    | none => readNumber

/-- A value with at most `depth` arrays and tables inside each other. -/
def readValue : (depth : Nat) → Reader Value
  | 0 => readValueWith none
  | depth + 1 => readValueWith (some (readValue depth))

def maxDepth : Nat := 79

inductive Statement where
  | nothing
  | assign (key : List String) (value : Value)
  | header (key : List String)
  | arrayHeader (key : List String)

def readStatement : Reader Statement := do
  match ← Reader.peek? with
  | some '#' | some '\n' | some '\r' => pure .nothing
  | some '[' =>
    if ← Reader.skipAll? ['[', '['] then
      let key ← readKey
      Reader.guard (← Reader.skipAll? [']', ']'])
      pure (.arrayHeader key)
    else
      Reader.skip '['
      let key ← readKey
      Reader.skip ']'
      pure (.header key)
  | _ =>
    let (key, value) ← readAssignment (readValue maxDepth)
    pure (.assign key value)

def readLine : Reader (Option Statement) := do
  skipSpaces
  if ← Reader.atEnd then pure none
  else
    let statement ← readStatement
    skipLineEnd
    pure (some statement)

/-- A table under construction and the header that assignments now stand below. -/
structure Draft where
  entries : Entries := []
  header : List String := []

def Draft.step (d : Draft) : Statement → Option Draft
  | .nothing => some d
  | .assign key value => do
    let entries ← Entries.within (Entries.assign value true key) d.header d.entries
    return { d with entries := entries }
  | .header key => do return ⟨← Entries.define key d.entries, key⟩
  | .arrayHeader key => do return ⟨← Entries.extend key d.entries, key⟩

/-- A byte order mark may stand at the start of a text. -/
def dropMark : List Char → List Char
  | '\uFEFF' :: cs => cs
  | cs => cs

/-- The entries of the table that a text describes, if it is well formed. -/
def entries? (text : String) : Option (List (String × Value)) := do
  let statements ← Reader.readAll? (Reader.collect readLine) (dropMark text.toList)
  let draft ← statements.foldlM Draft.step {}
  return entryValues draft.entries

end FoamDict.Toml
