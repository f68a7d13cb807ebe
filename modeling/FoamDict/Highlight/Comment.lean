import FoamDict.Text.Blank

/-!
# Comment lines

A line whose first characters after blanks are `/*` opens a block of comment lines. The block ends
with the first later line that holds `*/`; the opening line itself is not searched. A line that
starts with `//` after blanks is a comment line of its own.
-/

namespace FoamDict.Highlight.Comment

def opensBlock (line : List Char) : Bool := ['/', '*'].isPrefixOf (Text.trim line)

def isLineComment (line : List Char) : Bool := ['/', '/'].isPrefixOf (Text.trim line)

def closesBlock : List Char → Bool
  | '*' :: '/' :: _ => true
  | _ :: cs => closesBlock cs
  | [] => false

/-- Whether a block is open after the line, given whether one was open before it. -/
def openAfter (inside : Bool) (line : List Char) : Bool :=
  if inside then !closesBlock line else opensBlock line

def covers (inside : Bool) (line : List Char) : Bool :=
  inside || opensBlock line || isLineComment line

end FoamDict.Highlight.Comment
