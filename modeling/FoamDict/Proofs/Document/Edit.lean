import FoamDict.Proofs.Document.Position

/-!
# Lines of an edited text

The positions of an edit may be given in either order. An edit between two positions in existing
lines keeps the lines before the first and after the second; in their place stand as many lines as
the new text has, the first and last of them joined to what is left of the two lines.
-/

namespace FoamDict.Document

open FoamDict.Text

theorem Edit.apply_replace_comm (text : List Char) (p q : Position) (new : List Char) :
    Edit.apply text (.replace p q new) = Edit.apply text (.replace q p new) := by
  simp only [Edit.apply, Nat.min_comm, Nat.max_comm]

theorem Edit.apply_replace_of_le {p q : Position} (h : p ≤ q) (text new : List Char) :
    Edit.apply text (.replace p q new) =
      text.take (p.offset text) ++ (new ++ text.drop (q.offset text)) := by
  have hle := offset_le_offset text h
  simp only [Edit.apply, splice, Nat.min_eq_left hle, Nat.max_eq_right hle, List.append_assoc]

variable {text head tail new : List Char} {p q : Position}

/-- What stands in the place of the edited lines: what is left of the first one, the new text and
what is left of the last one. -/
def joined (p q : Position) (head tail new : List Char) : List Char :=
  head.take (fitting p.column (dropReturns head))
    ++ (new ++ tail.drop (fitting q.column (dropReturns tail)))

theorem pieces_apply_replace (hpq : p ≤ q) (hp : (pieces text)[p.line]? = some head)
    (hq : (pieces text)[q.line]? = some tail) :
    pieces (Edit.apply text (.replace p q new)) =
      (pieces text).take p.line
        ++ (pieces (joined p q head tail new) ++ (pieces text).drop (q.line + 1)) := by
  have hframe : Edit.apply text (.replace p q new) =
      closed ((pieces text).take p.line)
        ++ (joined p q head tail new ++ opened ((pieces text).drop (q.line + 1))) := by
    rw [Edit.apply_replace_of_le hpq, take_offset hp, drop_offset hq]
    simp only [joined, List.append_assoc]
  rw [hframe]
  exact pieces_framed (fun _ h => feed_not_mem_of_mem_take h)
    (fun _ h => feed_not_mem_of_mem_drop h) _

theorem length_pieces_joined (hp : head ∈ pieces text) (hq : tail ∈ pieces text) :
    (pieces (joined p q head tail new)).length = new.count '\n' + 1 := by
  have hhead : (head.take (fitting p.column (dropReturns head))).count '\n' = 0 :=
    List.count_eq_zero.mpr fun h => feed_not_mem_of_mem_pieces hp (List.mem_of_mem_take h)
  have htail : (tail.drop (fitting q.column (dropReturns tail))).count '\n' = 0 :=
    List.count_eq_zero.mpr fun h => feed_not_mem_of_mem_pieces hq (List.mem_of_mem_drop h)
  rw [length_pieces, joined, List.count_append, List.count_append, hhead, htail]
  omega

/-- The lines before the first position and after the second stay; the new text brings one line more
than it has line feeds. -/
theorem lines_apply_replace (hpq : p ≤ q) (hq : q.line < (lines text).length) (new : List Char) :
    ∃ middle, middle.length = new.count '\n' + 1 ∧
      lines (Edit.apply text (.replace p q new)) =
        (lines text).take p.line ++ (middle ++ (lines text).drop (q.line + 1)) := by
  rw [length_lines] at hq
  have hp : p.line < (pieces text).length := lt_of_le_of_lt (Position.line_le hpq) hq
  have hpiece := List.getElem?_eq_getElem hp
  have hpiece' := List.getElem?_eq_getElem hq
  refine ⟨(pieces (joined p q (pieces text)[p.line] (pieces text)[q.line] new)).map dropReturn,
    ?_, ?_⟩
  · rw [List.length_map]
    exact length_pieces_joined (List.getElem_mem hp) (List.getElem_mem hq)
  · rw [lines, pieces_apply_replace hpq hpiece hpiece']
    simp only [lines, List.map_append, List.map_take, List.map_drop]

end FoamDict.Document
