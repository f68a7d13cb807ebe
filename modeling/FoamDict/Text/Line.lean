/-!
# Lines

A text is a list of characters. A line feed ends a line and nothing else does, so a text has one
line more than it has line feeds. A carriage return at the very end of a line belongs to the line
end and is not part of the line.
-/

namespace FoamDict.Text

/-- A carriage return before a line feed is half of the line end. -/
def dropReturn (piece : List Char) : List Char :=
  if piece.getLast? = some '\r' then piece.dropLast else piece

@[simp] theorem dropReturn_nil : dropReturn [] = [] := rfl

theorem dropReturn_append_return (line : List Char) : dropReturn (line ++ ['\r']) = line := by
  simp [dropReturn]

theorem dropReturn_of_getLast?_ne {piece : List Char} (h : piece.getLast? ≠ some '\r') :
    dropReturn piece = piece := if_neg h

/-- The stretches between line feeds, carriage returns included. -/
def pieces (text : List Char) : List (List Char) := text.splitOn '\n'

@[simp] theorem pieces_nil : pieces [] = [[]] := rfl

theorem pieces_cons (c : Char) (text : List Char) :
    pieces (c :: text) =
      if c = '\n' then [] :: pieces text else (pieces text).modifyHead (c :: ·) := by
  simp only [pieces, List.splitOn, List.splitOnP_cons_eq_if_modifyHead, beq_iff_eq]

def lines (text : List Char) : List (List Char) := (pieces text).map dropReturn

@[simp] theorem lines_nil : lines [] = [[]] := rfl

@[simp] theorem length_lines (text : List Char) : (lines text).length = (pieces text).length := by
  simp [lines]

end FoamDict.Text
