import Mathlib.Data.List.Basic
import FoamDict.Proofs.Text.Line

/-!
# A text from its lines

A line does not tell whether a carriage return was dropped from it. Told so for every line, a text
is known: it is the lines with line feeds between them, each followed by the carriage return it
lost. No other lines and line ends give the same text.
-/

namespace FoamDict.Text

/-- A line and whether a carriage return was dropped behind it. One is dropped if there is one, so
a line ends in a carriage return only if it lost another. -/
structure EndedLine where
  line : List Char
  dropped : Bool
  dropped_of_return : line.getLast? = some '\r' → dropped = true

namespace EndedLine

/-- The line as it stands in the text. -/
def piece (e : EndedLine) : List Char := if e.dropped then e.line ++ ['\r'] else e.line

theorem getLast?_piece_eq_return_iff (e : EndedLine) :
    e.piece.getLast? = some '\r' ↔ e.dropped = true := by
  rw [piece]
  split_ifs with hdropped
  · simp [hdropped]
  · exact iff_of_false (mt e.dropped_of_return hdropped) hdropped

theorem dropReturn_piece (e : EndedLine) : dropReturn e.piece = e.line := by
  by_cases hdropped : e.dropped = true
  · rw [piece, if_pos hdropped, dropReturn_append_return]
  · rw [dropReturn_of_getLast?_ne (mt e.getLast?_piece_eq_return_iff.mp hdropped), piece,
      if_neg hdropped]

/-- How a line stands in the text tells both the line and what was dropped. -/
theorem piece_injective : Function.Injective piece := by
  intro e e' h
  have hline : e.line = e'.line := by rw [← e.dropReturn_piece, h, e'.dropReturn_piece]
  have hdropped : e.dropped = e'.dropped := by
    rw [Bool.eq_iff_iff, ← getLast?_piece_eq_return_iff, h, getLast?_piece_eq_return_iff]
  cases e
  cases e'
  congr

theorem piece_surjective : Function.Surjective piece := by
  intro p
  by_cases hreturn : p.getLast? = some '\r'
  · obtain ⟨line, rfl⟩ := List.getLast?_eq_some_iff.mp hreturn
    exact ⟨⟨line, true, fun _ => rfl⟩, rfl⟩
  · exact ⟨⟨p, false, fun h => absurd h hreturn⟩, rfl⟩

theorem feed_mem_piece_iff (e : EndedLine) : '\n' ∈ e.piece ↔ '\n' ∈ e.line := by
  rw [piece]
  split_ifs <;> simp

end EndedLine

/-- The text that consists of these lines with these ends. -/
def unlines (es : List EndedLine) : List Char := ['\n'].intercalate (es.map EndedLine.piece)

variable {text : List Char} {es : List EndedLine}

theorem pieces_unlines (hes : es ≠ []) (hfeed : ∀ e ∈ es, '\n' ∉ e.line) :
    pieces (unlines es) = es.map EndedLine.piece := by
  refine List.splitOn_intercalate '\n' ?_ (by simpa using hes)
  intro p hp
  obtain ⟨e, he, rfl⟩ := List.mem_map.mp hp
  exact mt e.feed_mem_piece_iff.mp (hfeed e he)

theorem exists_map_piece_eq_pieces (text : List Char) :
    ∃ es : List EndedLine, es.map EndedLine.piece = pieces text :=
  EndedLine.piece_surjective.list_map (pieces text)

theorem unlines_eq (h : es.map EndedLine.piece = pieces text) : unlines es = text := by
  rw [unlines, h, pieces, List.intercalate_splitOn]

theorem map_line_eq_lines (h : es.map EndedLine.piece = pieces text) :
    es.map EndedLine.line = lines text := by
  rw [lines, ← h, List.map_map]
  exact List.map_congr_left fun e _ => e.dropReturn_piece.symm

theorem feed_not_mem_of_mem_lines {line : List Char} (h : line ∈ lines text) : '\n' ∉ line := by
  obtain ⟨es, hes⟩ := exists_map_piece_eq_pieces text
  rw [← map_line_eq_lines hes] at h
  obtain ⟨e, he, rfl⟩ := List.mem_map.mp h
  have hpiece : e.piece ∈ pieces text := hes ▸ List.mem_map_of_mem he
  exact mt e.feed_mem_piece_iff.mpr (feed_not_mem_of_mem_pieces hpiece)

theorem lines_append_feed (a b : List Char) : lines (a ++ '\n' :: b) = lines a ++ lines b := by
  rw [lines, pieces_append_feed, List.map_append, lines, lines]

/-- The lines of a text are one more than its line feeds and hold none of them. The text is these
lines, each with the carriage return that was dropped from it if one was, and it is no other lines
with their ends. What stands behind a line feed is split on its own. -/
theorem lines_lose_only_ends (text : List Char) :
    (lines text).length = text.count '\n' + 1 ∧
    (∀ line ∈ lines text, '\n' ∉ line) ∧
    (∃ es : List EndedLine, es.map (·.line) = lines text ∧ unlines es = text ∧
      ∀ es' : List EndedLine, es' ≠ [] → (∀ e ∈ es', '\n' ∉ e.line) → unlines es' = text →
        es' = es) ∧
    ∀ behind, lines (text ++ '\n' :: behind) = lines text ++ lines behind := by
  refine ⟨by rw [length_lines, length_pieces], fun _ => feed_not_mem_of_mem_lines, ?_,
    lines_append_feed text⟩
  obtain ⟨es, hes⟩ := exists_map_piece_eq_pieces text
  refine ⟨es, map_line_eq_lines hes, unlines_eq hes, fun es' hne hfeed htext => ?_⟩
  -- Both are read off the same pieces, and a piece tells its line and what was dropped.
  have hpieces : es'.map EndedLine.piece = es.map EndedLine.piece := by
    rw [hes, ← htext, pieces_unlines hne hfeed]
  exact EndedLine.piece_injective.list_map hpieces

/-- Of two carriage returns one is dropped, and none where something else ends the line. -/
theorem lines_lose_only_ends_of_returns :
    ∃ es : List EndedLine, es ≠ [] ∧ (∀ e ∈ es, '\n' ∉ e.line) ∧
      unlines es = ['a', '\r', '\r', '\n', '\r', 'b', '\n', '\r'] ∧
      es.map (·.dropped) = [true, false, true] ∧
      es.map (·.line) = lines ['a', '\r', '\r', '\n', '\r', 'b', '\n', '\r'] := by
  let es : List EndedLine :=
    [⟨['a', '\r'], true, fun _ => rfl⟩, ⟨['\r', 'b'], false, by decide⟩, ⟨[], true, fun _ => rfl⟩]
  have hne : es ≠ [] := List.cons_ne_nil _ _
  have hfeed : ∀ e ∈ es, '\n' ∉ e.line := by simp [es]
  obtain ⟨-, -, ⟨es', hlines, -, hunique⟩, -⟩ :=
    lines_lose_only_ends ['a', '\r', '\r', '\n', '\r', 'b', '\n', '\r']
  refine ⟨es, hne, hfeed, rfl, rfl, ?_⟩
  rw [← hlines, hunique es hne hfeed rfl]

end FoamDict.Text
