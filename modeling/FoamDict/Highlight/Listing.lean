import FoamDict.Brace
import FoamDict.Highlight.Classify
import FoamDict.Keyword.Builtin
import FoamDict.Text.Quoted

/-!
# Listings

A listing shows the spans of a text one by one with the characters they cover, then how many there
are of each category, the number of comment lines, and the brace faults.
-/

namespace FoamDict.Highlight.Listing

def padLeft (width : Nat) (s : String) : String :=
  "".pushn ' ' (width - s.length) ++ s

def padRight (width : Nat) (s : String) : String :=
  s.pushn ' ' (width - s.length)

def covered (texts : List (List Char)) (s : Span) : List Char :=
  let rest := (texts.getD s.line []).drop (Text.fitting s.start (texts.getD s.line []))
  rest.take (Text.fitting s.length rest)

/-- Up to fifty characters are shown in full. -/
def preview (cs : List Char) : String :=
  if cs.length > 50 then String.ofList (cs.take 50) ++ "..." else String.ofList cs

def spanRow (texts : List (List Char)) (s : Span) : String :=
  padLeft 4 (toString s.line) ++ ":" ++ padRight 4 (toString s.start) ++ " "
    ++ padRight 10 s.category.tokenType ++ " | " ++ Text.quoted (preview (covered texts s))

def byName : List Category :=
  [.comment, .list, .dictionary, .number, .rvalue, .string, .lvalue]

def countOf (spans : List Span) (c : Category) : Nat := spans.countP (·.category = c)

def categoryRow? (spans : List Span) (c : Category) : Option String :=
  match countOf spans c with
  | 0 => none
  | n => some (padRight 10 c.tokenType ++ " " ++ toString n)

def faultRow (f : Brace.Fault) : String :=
  "  line " ++ toString f.extent.line ++ ": " ++ f.kind.message

def faultRows (faults : List Brace.Fault) : List String :=
  if faults.isEmpty then ["  none"] else faults.map faultRow

def rows (text : List Char) : List String :=
  let spans := classify Keyword.Catalog.builtin text
  ["Found " ++ toString spans.length ++ " semantic tokens:", ""]
    ++ spans.map (spanRow (Text.lines text))
    ++ ["", "", "Grouped by category:", "====================", ""]
    ++ byName.filterMap (categoryRow? spans)
    ++ ["", toString (countOf spans .comment) ++ " comment line(s)", "", "Brace diagnostics:"]
    ++ faultRows (Brace.faults text)

def render (text : List Char) : String :=
  String.join ((rows text).map (· ++ "\n"))

def sample : String :=
  "/*--------------------------------*- C++ -*----------------------------------*\\\n" ++
  "  =========                 |\n" ++
  "  \\\\      /  F ield         | OpenFOAM: The Open Source CFD Toolbox\n" ++
  "\\*---------------------------------------------------------------------------*/\n" ++
  "FoamFile\n" ++
  "\x7b\n" ++
  "    format      ascii;\n" ++
  "    class       volVectorField;\n" ++
  "    object      U;\n" ++
  "\x7d\n" ++
  "\n" ++
  "dimensions      [0 1 -1 0 0 0 0];\n" ++
  "\n" ++
  "internalField   uniform (0 0 0);\n" ++
  "\n" ++
  "boundaryField\n" ++
  "\x7b\n" ++
  "    movingWall\n" ++
  "    \x7b\n" ++
  "        type            fixedValue;\n" ++
  "        value           uniform (1 0 0);\n" ++
  "    \x7d\n" ++
  "    frontAndBack\n" ++
  "    \x7b\n" ++
  "        type            empty;\n" ++
  "    \x7d\n" ++
  "\x7d\n"

end FoamDict.Highlight.Listing
