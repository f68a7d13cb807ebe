import FoamDict.Document.Edit

/-!
# Edits within bounds

An edit looks up the start of a line and the line itself, line feed included, takes characters out
between two offsets and puts others in at one. A line that the text does not have, an offset past
its end and an end in front of its start stand for nothing there, and an edit that comes to one of
them has no result.
-/

namespace FoamDict.Document

open FoamDict.Text

/-- Every piece but the last gets its line feed back. -/
def withFeeds : List (List Char) → List (List Char)
  | [] => []
  | [piece] => [piece]
  | piece :: next :: rest => (piece ++ ['\n']) :: withFeeds (next :: rest)

/-- The end of the last line counts as the start of one more. -/
def lineStart? (ls : List (List Char)) (index : Nat) : Option Nat :=
  if index ≤ ls.length then some (ls.take index).flatten.length else none

/-- Drop the line feed and all carriage returns from the very end. -/
def dropLineEnd (line : List Char) : List Char :=
  (line.reverse.dropWhile fun c => c = '\n' || c = '\r').reverse

def Position.offset? (text : List Char) (p : Position) : Option Nat :=
  let ls := withFeeds (pieces text)
  if ls.length ≤ p.line then some text.length
  else do
    let start ← lineStart? ls p.line
    let line ← ls[p.line]?
    return start + fitting p.column (dropLineEnd line)

def remove? (text : List Char) (start stop : Nat) : Option (List Char) :=
  if start ≤ stop ∧ stop ≤ text.length then some (text.take start ++ text.drop stop) else none

def insert? (text : List Char) (place : Nat) (new : List Char) : Option (List Char) :=
  if place ≤ text.length then some (text.take place ++ (new ++ text.drop place)) else none

def Edit.result? (text : List Char) : Edit → Option (List Char)
  | replaceAll new => some new
  | replace first last new => do
    let a ← first.offset? text
    let b ← last.offset? text
    let (start, stop) := if b < a then (b, a) else (a, b)
    let rest ← remove? text start stop
    insert? rest start new

end Document

def Document.edit? (d : Document) (edits : List Document.Edit) (version : Int) :
    Option Document := do
  return ⟨← edits.foldlM Document.Edit.result? d.text, version⟩

end FoamDict
