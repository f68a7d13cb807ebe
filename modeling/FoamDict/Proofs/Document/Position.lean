import Mathlib.Data.List.DropRight
import FoamDict.Document.Edit
import FoamDict.Proofs.Text.Column
import FoamDict.Proofs.Text.Line

/-!
# Offsets of positions

A position in an existing line stands for an offset inside the piece of that line: before it lie
the earlier pieces with their line feeds and the leading characters that fit into the column, behind
it the rest of the piece and the later pieces. Positions that come later never stand for an earlier
offset, and no offset goes past the end.
-/

namespace FoamDict.Document

open FoamDict.Text

theorem dropReturns_eq_rdropWhile (piece : List Char) :
    dropReturns piece = piece.rdropWhile (· = '\r') := rfl

@[simp] theorem dropReturns_nil : dropReturns [] = [] := rfl

theorem dropReturns_concat_return (cs : List Char) :
    dropReturns (cs ++ ['\r']) = dropReturns cs := by
  simp [dropReturns_eq_rdropWhile]

theorem dropReturns_concat_of_ne {c : Char} (h : c ≠ '\r') (cs : List Char) :
    dropReturns (cs ++ [c]) = cs ++ [c] := by
  simp [dropReturns_eq_rdropWhile, h]

theorem dropReturns_isPrefix (piece : List Char) : dropReturns piece <+: piece :=
  List.rdropWhile_prefix _ _

theorem length_dropReturns_le (piece : List Char) : (dropReturns piece).length ≤ piece.length :=
  (dropReturns_isPrefix piece).length_le

theorem exists_eq_dropReturns_append (piece : List Char) :
    ∃ m, piece = dropReturns piece ++ List.replicate m '\r' := by
  induction piece using List.reverseRecOn with
  | nil => exact ⟨0, rfl⟩
  | append_singleton cs c ih =>
      by_cases hc : c = '\r'
      · subst hc
        obtain ⟨m, hm⟩ := ih
        refine ⟨m + 1, ?_⟩
        rw [dropReturns_concat_return, List.replicate_succ', ← List.append_assoc, ← hm]
      · exact ⟨0, by simp [dropReturns_concat_of_ne hc]⟩

/-- Reading order of positions. -/
instance : LE Position where
  le p q := p.line < q.line ∨ p.line = q.line ∧ p.column ≤ q.column

theorem Position.le_def {p q : Position} :
    p ≤ q ↔ p.line < q.line ∨ p.line = q.line ∧ p.column ≤ q.column := Iff.rfl

instance (p q : Position) : Decidable (p ≤ q) := decidable_of_iff' _ Position.le_def

theorem Position.le_total (p q : Position) : p ≤ q ∨ q ≤ p := by
  rw [Position.le_def, Position.le_def]
  omega

theorem Position.line_le {p q : Position} (h : p ≤ q) : p.line ≤ q.line := by
  rw [Position.le_def] at h
  omega

theorem startOfLine_eq_length_closed (ps : List (List Char)) (index : Nat) :
    startOfLine ps index = (closed (ps.take index)).length := by
  rw [startOfLine]
  induction ps.take index with
  | nil => rfl
  | cons p qs ih =>
      rw [List.foldr_cons, ih, closed_cons, List.length_append, List.length_cons]
      omega

theorem length_closed_take_mono (ps : List (List Char)) {a b : Nat} (h : a ≤ b) :
    (closed (ps.take a)).length ≤ (closed (ps.take b)).length := by
  obtain ⟨rest, hrest⟩ := List.take_prefix_take_left (l := ps) h
  rw [← hrest, closed_append, List.length_append]
  exact Nat.le_add_right _ _

theorem length_closed_take_succ {ps : List (List Char)} {index : Nat} {piece : List Char}
    (h : ps[index]? = some piece) :
    (closed (ps.take (index + 1))).length = (closed (ps.take index)).length + piece.length + 1 := by
  rw [List.take_add_one, h, closed_append, List.length_append]
  simp
  omega

section Offset

variable {text piece : List Char} {p q : Position}

theorem offset_of_piece (h : (pieces text)[p.line]? = some piece) :
    p.offset text =
      (closed ((pieces text).take p.line)).length + fitting p.column (dropReturns piece) := by
  rw [Position.offset, h, ← startOfLine_eq_length_closed]
  rfl

theorem offset_of_length_le (h : (pieces text).length ≤ p.line) : p.offset text = text.length := by
  rw [Position.offset, List.getElem?_eq_none h]

theorem fitting_dropReturns_le_length (column : Nat) (piece : List Char) :
    fitting column (dropReturns piece) ≤ piece.length :=
  (fitting_le_length column _).trans (length_dropReturns_le piece)

theorem eq_before_append_behind (h : (pieces text)[p.line]? = some piece) :
    text =
      (closed ((pieces text).take p.line) ++ piece.take (fitting p.column (dropReturns piece)))
        ++ (piece.drop (fitting p.column (dropReturns piece))
          ++ opened ((pieces text).drop (p.line + 1))) := by
  rw [List.append_assoc, ← List.append_assoc (List.take _ _), List.take_append_drop]
  exact eq_framed h

theorem length_before (h : (pieces text)[p.line]? = some piece) :
    (closed ((pieces text).take p.line)
      ++ piece.take (fitting p.column (dropReturns piece))).length = p.offset text := by
  rw [offset_of_piece h, List.length_append,
    List.length_take_of_le (fitting_dropReturns_le_length p.column piece)]

theorem take_offset (h : (pieces text)[p.line]? = some piece) :
    text.take (p.offset text) =
      closed ((pieces text).take p.line) ++ piece.take (fitting p.column (dropReturns piece)) :=
  (congrArg (List.take _) (eq_before_append_behind h)).trans (List.take_left' (length_before h))

theorem drop_offset (h : (pieces text)[p.line]? = some piece) :
    text.drop (p.offset text) =
      piece.drop (fitting p.column (dropReturns piece))
        ++ opened ((pieces text).drop (p.line + 1)) :=
  (congrArg (List.drop _) (eq_before_append_behind h)).trans (List.drop_left' (length_before h))

theorem offset_le_length (text : List Char) (p : Position) : p.offset text ≤ text.length := by
  by_cases hp : p.line < (pieces text).length
  · have h := List.getElem?_eq_getElem hp
    have hlength := congrArg List.length (eq_before_append_behind h)
    rw [List.length_append, length_before h] at hlength
    omega
  · exact (offset_of_length_le (Nat.not_lt.mp hp)).le

/-- A later position never stands for an earlier offset. -/
theorem offset_le_offset (text : List Char) (h : p ≤ q) : p.offset text ≤ q.offset text := by
  by_cases hq : q.line < (pieces text).length
  · have hp : p.line < (pieces text).length := lt_of_le_of_lt (Position.line_le h) hq
    have hpiece := List.getElem?_eq_getElem hp
    rw [offset_of_piece hpiece, offset_of_piece (List.getElem?_eq_getElem hq)]
    rcases h with hline | ⟨hline, hcolumn⟩
    · have hfit := fitting_dropReturns_le_length p.column (pieces text)[p.line]
      have hsucc := length_closed_take_succ hpiece
      have hmono := length_closed_take_mono (pieces text) (Nat.succ_le_of_lt hline)
      rw [Nat.succ_eq_add_one] at hmono
      omega
    · simp only [hline]
      exact Nat.add_le_add_left (fitting_mono hcolumn _) _
  · rw [offset_of_length_le (Nat.not_lt.mp hq)]
    exact offset_le_length text p

end Offset

end FoamDict.Document
