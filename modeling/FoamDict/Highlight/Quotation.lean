import FoamDict.Text.Scan

/-!
# Quotations

A quotation runs from a double quote to the next double quote that no backslash stands before; a
backslash makes the character behind it ordinary. A double quote that is never closed starts no
quotation, and the search goes on behind it.
-/

namespace FoamDict.Highlight.Quotation

/-- How many characters there are up to and including the closing quote. -/
def closing? : List Char → Option Nat
  | [] => none
  | ['\\'] => none
  | '\\' :: _ :: cs => (closing? cs).map (· + 2)
  | c :: cs => if c = '"' then some 1 else (closing? cs).map (· + 1)

def lengthAt : Text.LengthRule := fun _ rest =>
  match rest with
  | '"' :: cs => ((closing? cs).map (· + 1)).getD 0
  | _ => 0

end Quotation

def quotations (line : List Char) : List Text.Occurrence := Text.occurrences Quotation.lengthAt line

end FoamDict.Highlight
