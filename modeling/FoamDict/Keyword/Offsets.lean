import FoamDict.Keyword.Lookup
import FoamDict.Text.Name

/-!
# Hover over byte offsets

What the search for names takes is a range of bytes. It stands for characters, and for a start
column and a width, only if both of its ends fall between two characters and come in order; where
one does not, hover has no answer, not even that there is nothing to show.
-/

namespace FoamDict.Keyword

open FoamDict.Text (ByteRange)

/-- The first range that the column touches, its end included. -/
def touched? (line : List Char) (column : Nat) : List ByteRange → Option (Option ByteRange)
  | [] => some none
  | r :: rest => do
    let (start, width) ← Text.columnSpan? line r.first r.last
    if start ≤ column && column ≤ start + width then some (some r) else touched? line column rest

/-- What is shown for the name that takes a range. -/
def Catalog.showRange? (c : Catalog) (line : List Char) (index : Nat) (r : ByteRange) :
    Option (Option Hover) := do
  let (start, width) ← Text.columnSpan? line r.first r.last
  let name ← Text.slice? line r
  let identifier := String.ofList name
  return (c.documentation? identifier).map fun text =>
    ⟨⟨index, start, start + width⟩, Documentation.markdown ⟨identifier, text⟩⟩

def Catalog.tryHoverLine (c : Catalog) (line : List Char) (index column : Nat) :
    Option (Option Hover) := do
  match ← touched? line column (Text.byteRanges Text.nameLength line) with
  | some r => c.showRange? line index r
  | none => return none

def Catalog.tryHover (c : Catalog) (text : List Char) (index column : Nat) :
    Option (Option Hover) :=
  match (Text.lines text)[index]? with
  | some line => c.tryHoverLine line index column
  | none => some none

end FoamDict.Keyword
