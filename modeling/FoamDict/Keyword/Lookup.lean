import FoamDict.Keyword.Suggestion
import FoamDict.Text.Line
import FoamDict.Text.Word

/-!
# Hover

The name under the cursor is the first name of the line that the cursor column touches, its end
included. If the catalog documents that name, hover shows its documentation for the extent of the
name.
-/

namespace FoamDict.Keyword

structure Hover where
  extent : Text.Extent
  contents : String
  deriving DecidableEq

def nameAt? (line : List Char) (column : Nat) : Option Text.Occurrence :=
  (Text.names line).find? fun name => name.start ≤ column && column ≤ name.stop

def Catalog.hoverLine? (c : Catalog) (line : List Char) (index column : Nat) : Option Hover := do
  let name ← nameAt? line column
  let identifier := String.ofList name.text
  let text ← c.documentation? identifier
  some ⟨⟨index, name.start, name.stop⟩, Documentation.markdown ⟨identifier, text⟩⟩

def Catalog.hover? (c : Catalog) (text : List Char) (index column : Nat) : Option Hover := do
  let line ← (Text.lines text)[index]?
  c.hoverLine? line index column

end FoamDict.Keyword
