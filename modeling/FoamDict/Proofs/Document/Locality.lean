import FoamDict.Proofs.Brace.Faults
import FoamDict.Proofs.Document.Edit
import FoamDict.Proofs.Highlight.Order
import FoamDict.Keyword.Builtin

/-!
# What an edit leaves alone

An edit between two positions keeps the lines before the first and after the second, the later ones
under new numbers. Before the first, spans and unmatched closing braces stay as they are. Behind the
second, spans only move with their lines, provided that a comment block is open there after the edit
exactly when one was open before it.
-/

namespace FoamDict.Document

open FoamDict.Highlight
open FoamDict.Keyword (Catalog)
open FoamDict.Text

/-- The number that a line behind an edit of the lines from `first` to `last` gets when the new text
has `feeds` line feeds. -/
def renumber (first last feeds line : Nat) : Nat := line + feeds - (last - first)

/-- What two texts have in common when lines from `first` to `last` of the one were edited to get
the other. -/
structure SameAround (catalog : Catalog) (first last feeds : Nat) (text edited : List Char) :
    Prop where
  length_lines : (lines edited).length = (lines text).length - (last - first) + feeds
  lines_before : (lines edited).take first = (lines text).take first
  lines_after :
    (lines edited).drop (renumber first last feeds (last + 1)) = (lines text).drop (last + 1)
  spans_before :
    (classify catalog edited).filter (·.line < first) =
      (classify catalog text).filter (·.line < first)
  faults_before :
    Brace.unmatchedBefore first (Brace.faults edited) =
      Brace.unmatchedBefore first (Brace.faults text)
  spans_after :
    Comment.openBefore (lines text) (last + 1) =
        Comment.openBefore (lines edited) (renumber first last feeds (last + 1)) →
      (classify catalog edited).filter (renumber first last feeds last < ·.line) =
        ((classify catalog text).filter (last < ·.line)).map fun s =>
          { s with line := renumber first last feeds s.line }

theorem sameAround_of_lines (catalog : Catalog) {first last feeds : Nat} {text edited : List Char}
    {middle : List (List Char)} (hle : first ≤ last) (hlast : last < (lines text).length)
    (hmiddle : middle.length = feeds + 1)
    (hlines : lines edited = (lines text).take first ++ (middle ++ (lines text).drop (last + 1))) :
    SameAround catalog first last feeds text edited := by
  have hbefore : ((lines text).take first).length = first :=
    List.length_take_of_le (hle.trans hlast.le)
  have hlength : (lines edited).length = (lines text).length - (last - first) + feeds := by
    rw [hlines, List.length_append, List.length_append, hbefore, hmiddle, List.length_drop]
    omega
  have hbehind : renumber first last feeds (last + 1) = first + (feeds + 1) := by
    rw [renumber]
    omega
  have htake : (lines edited).take first = (lines text).take first := by
    rw [hlines]
    exact List.take_left' hbefore
  have hdrop : (lines edited).drop (renumber first last feeds (last + 1)) =
      (lines text).drop (last + 1) := by
    rw [hlines, hbehind, ← List.append_assoc]
    exact List.drop_left' (by rw [List.length_append, hbefore, hmiddle])
  refine ⟨hlength, htake, hdrop, ?_, Brace.unmatchedBefore_faults_congr htake, fun hopen => ?_⟩
  · have hfirst : first ≤ (lines edited).length := by omega
    have hfirst' : first ≤ (lines text).length := by omega
    rw [classify_eq_spansFrom, classify_eq_spansFrom, filter_line_lt_spansFrom catalog _ hfirst,
      filter_line_lt_spansFrom catalog _ hfirst', htake]
  · have hnext : renumber first last feeds last + 1 = renumber first last feeds (last + 1) := by
      rw [renumber, renumber]
      omega
    have hbound : renumber first last feeds (last + 1) ≤ (lines edited).length := by omega
    have hmove (k : Nat) : renumber first last feeds (k + (last + 1)) =
        k + renumber first last feeds (last + 1) := by
      rw [renumber, renumber]
      omega
    simp only [Nat.lt_iff_add_one_le, hnext]
    rw [classify_eq_spansFrom, classify_eq_spansFrom, filter_le_line_spansFrom catalog _ hbound,
      filter_le_line_spansFrom catalog _ hlast, hdrop, ← hopen]
    exact (map_renumber_spansFrom catalog hmove _ _).symm

theorem edit_sameAround (catalog : Catalog) (d : Document) {p q : Position} (new : List Char)
    (version : Int) (hpq : p ≤ q) (hq : q.line < (lines d.text).length) :
    SameAround catalog p.line q.line (new.count '\n') d.text
      (d.edit [.replace p q new] version).text := by
  obtain ⟨middle, hmiddle, hlines⟩ := lines_apply_replace hpq hq new
  exact sameAround_of_lines catalog (Position.line_le hpq) hq hmiddle hlines

/-- Behind a comment block, joining two lines moves the spans of the later ones up by one line. -/
theorem edit_sameAround_joining :
    (⟨1, 2⟩ : Position) ≤ ⟨2, 0⟩ ∧
      2 < (lines ['/', '*', '\n', '*', '/', '\n', '2', '\n', '3']).length ∧
      (classify Catalog.builtin ['/', '*', '\n', '*', '/', '2', '\n', '3']).filter (1 < ·.line) =
        ((classify Catalog.builtin ['/', '*', '\n', '*', '/', '\n', '2', '\n', '3']).filter
          (2 < ·.line)).map fun s => { s with line := s.line - 1 } := by
  have hpq : (⟨1, 2⟩ : Position) ≤ ⟨2, 0⟩ := by decide
  have hq : 2 < (lines ['/', '*', '\n', '*', '/', '\n', '2', '\n', '3']).length := by decide
  exact ⟨hpq, hq, (edit_sameAround Catalog.builtin ⟨_, 1⟩ [] 2 hpq hq).spans_after (by decide)⟩

end FoamDict.Document
