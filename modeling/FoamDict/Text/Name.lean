import FoamDict.Text.Word

/-!
# Names

A name is looked for on its own: a letter or an underscore, then as many word characters as follow,
with a word boundary at both ends.
-/

namespace FoamDict.Text

def isNameStart (c : Char) : Bool := c.isAlpha || c = '_'

def nameLength : LengthRule
  | _, [] => 0
  | before, c :: cs =>
    if isBoundary before (some c) && isNameStart c then (cs.takeWhile isWordChar).length + 1 else 0

end FoamDict.Text
