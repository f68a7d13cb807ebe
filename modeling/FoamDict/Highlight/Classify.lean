import FoamDict.Highlight.Comment
import FoamDict.Highlight.Numeral
import FoamDict.Highlight.Quotation
import FoamDict.Highlight.Span
import FoamDict.Keyword.Catalog
import FoamDict.Text.Line

/-!
# Classification of a text

A comment line is one span. Any other line gets a span for each word of the catalog, each numeral
and each quotation; these may overlap. A span without any width is not kept. At the end the spans
of all lines are put in order by line and start; those with one place stay in the order in which
they were found, catalog word, numeral, quotation.
-/

namespace FoamDict.Highlight

open FoamDict.Keyword (Catalog)

def commentSpan (index : Nat) (line : List Char) : Span := ⟨index, 0, Text.units line, .comment⟩

def wordSpans (catalog : Catalog) (index : Nat) (line : List Char) : List Span :=
  (Text.words line).filterMap fun word =>
    (catalog.category? (String.ofList word.text)).map fun c => Span.ofOccurrence index c word

def codeSpans (catalog : Catalog) (index : Nat) (line : List Char) : List Span :=
  wordSpans catalog index line
    ++ (numerals line).map (Span.ofOccurrence index .number)
    ++ (quotations line).map (Span.ofOccurrence index .string)

/-- The spans of one line as they are found; `inside` tells whether a comment block is open before
it. -/
def lineSpans (catalog : Catalog) (index : Nat) (inside : Bool) (line : List Char) : List Span :=
  (if Comment.covers inside line then [commentSpan index line]
    else codeSpans catalog index line).filter (0 < ·.length)

/-- The spans of consecutive lines as they are found, the first line having number `index`. -/
def collect (catalog : Catalog) : Nat → Bool → List (List Char) → List Span
  | _, _, [] => []
  | index, inside, line :: rest =>
    lineSpans catalog index inside line
      ++ collect catalog (index + 1) (Comment.openAfter inside line) rest

def classify (catalog : Catalog) (text : List Char) : List Span :=
  (collect catalog 0 false (Text.lines text)).mergeSort Span.notAfter

end FoamDict.Highlight
