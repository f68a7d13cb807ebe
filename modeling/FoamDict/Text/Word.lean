import FoamDict.Text.Scan

/-!
# Words

A word is a longest run of ASCII letters, digits and underscores. Any other character, an accented
letter included, stands outside words; a word boundary is a place with a word character on exactly
one side.
-/

namespace FoamDict.Text

def isWordChar (c : Char) : Bool := c.isAlphanum || c = '_'

def isBoundary (before after : Option Char) : Bool :=
  before.any isWordChar != after.any isWordChar

def wordLength : LengthRule := fun before rest =>
  if before.any isWordChar then 0 else (rest.takeWhile isWordChar).length

def words (line : List Char) : List Occurrence := occurrences wordLength line

/-- The words that do not start with a digit. -/
def names (line : List Char) : List Occurrence :=
  (words line).filter fun o => !o.text.head?.any Char.isDigit

end FoamDict.Text
