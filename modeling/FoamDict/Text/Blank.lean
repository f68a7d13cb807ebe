/-!
# Blank characters

The characters with the Unicode property `White_Space`, and the trimming of a line at both ends.
-/

namespace FoamDict.Text

def isBlank (c : Char) : Bool :=
  (0x09 ≤ c.val && c.val ≤ 0x0d) || c.val = 0x20 || c.val = 0x85 || c.val = 0xa0 || c.val = 0x1680
    || (0x2000 ≤ c.val && c.val ≤ 0x200a) || c.val = 0x2028 || c.val = 0x2029 || c.val = 0x202f
    || c.val = 0x205f || c.val = 0x3000

def trimStart (line : List Char) : List Char := line.dropWhile isBlank

def trimEnd (line : List Char) : List Char := (line.reverse.dropWhile isBlank).reverse

def trim (line : List Char) : List Char := trimEnd (trimStart line)

end FoamDict.Text
