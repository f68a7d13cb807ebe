import FoamDict.Highlight.Classify

/-!
# Classification over byte offsets

What a scan takes is a range of bytes. It stands for characters, and for a start column and a width,
only if both of its ends fall between two characters and come in order; where one does not, there is
no classification.
-/

namespace FoamDict.Highlight

open FoamDict.Keyword (Catalog)
open FoamDict.Text (ByteRange)

def Span.ofByteRange? (index : Nat) (category : Category) (line : List Char) (r : ByteRange) :
    Option Span :=
  (Text.columnSpan? line r.first r.last).map fun (start, width) => ⟨index, start, width, category⟩

/-- No span for a word outside the catalog. -/
def wordSpan? (catalog : Catalog) (index : Nat) (line : List Char) (r : ByteRange) :
    Option (List Span) := do
  let word ← Text.slice? line r
  match catalog.category? (String.ofList word) with
  | some category => (Span.ofByteRange? index category line r).map fun s => [s]
  | none => some []

def codeSpans? (catalog : Catalog) (index : Nat) (line : List Char) : Option (List Span) := do
  let words ← (Text.byteRanges Text.wordLength line).mapM (wordSpan? catalog index line)
  let numbers ← (Text.byteRanges Numeral.lengthAt line).mapM (Span.ofByteRange? index .number line)
  let strings ←
    (Text.byteRanges Quotation.lengthAt line).mapM (Span.ofByteRange? index .string line)
  return words.flatten ++ numbers ++ strings

def lineSpans? (catalog : Catalog) (index : Nat) (inside : Bool) (line : List Char) :
    Option (List Span) := do
  let found ← if Comment.covers inside line then some [commentSpan index line]
    else codeSpans? catalog index line
  return found.filter (0 < ·.length)

def collect? (catalog : Catalog) : Nat → Bool → List (List Char) → Option (List Span)
  | _, _, [] => some []
  | index, inside, line :: rest => do
    let here ← lineSpans? catalog index inside line
    let below ← collect? catalog (index + 1) (Comment.openAfter inside line) rest
    return here ++ below

def classify? (catalog : Catalog) (text : List Char) : Option (List Span) :=
  (collect? catalog 0 false (Text.lines text)).map (·.mergeSort Span.notAfter)

end FoamDict.Highlight
