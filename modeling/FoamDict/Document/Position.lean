import FoamDict.Text.Column
import FoamDict.Text.Line

/-!
# Positions in a document

A position is a line number and a column. It stands for an offset: a number of characters from the
start of the text. Columns past the end of a line stand for its end, before all carriage returns
there; lines past the last stand for the end of the text.
-/

namespace FoamDict.Document

open FoamDict.Text

structure Position where
  line : Nat
  column : Nat
  deriving DecidableEq

/-- Drop all carriage returns from the very end. -/
def dropReturns (piece : List Char) : List Char :=
  (piece.reverse.dropWhile (· = '\r')).reverse

/-- The offset at which a line starts; each earlier line takes one more character for its end. -/
def startOfLine (ps : List (List Char)) (line : Nat) : Nat :=
  (ps.take line).foldr (fun piece n => piece.length + 1 + n) 0

def offsetIn (ps : List (List Char)) (p : Position) (piece : List Char) : Nat :=
  startOfLine ps p.line + fitting p.column (dropReturns piece)

def Position.offset (text : List Char) (p : Position) : Nat :=
  match (pieces text)[p.line]? with
  | some piece => offsetIn (pieces text) p piece
  | none => text.length

end FoamDict.Document
