import FoamDict.Proofs.Document.Edit
import FoamDict.Proofs.Text.LineEnd

/-!
# Edits under either line end

No position stands for a place between a carriage return and the line feed behind it. A position
therefore cuts both forms of a text at the same place, and an edit that comes in both forms leads
from two forms of one text to two forms of one text.
-/

namespace FoamDict.Document

open FoamDict.Text

theorem dropReturns_cons_of_ne {c : Char} (hc : c ≠ '\r') (piece : List Char) :
    dropReturns (c :: piece) = c :: dropReturns piece := by
  induction piece using List.reverseRecOn with
  | nil => exact dropReturns_concat_of_ne hc []
  | append_singleton cs d ih =>
      rw [← List.cons_append]
      by_cases hd : d = '\r'
      · rw [hd, dropReturns_concat_return, dropReturns_concat_return, ih]
      · rw [dropReturns_concat_of_ne hd, dropReturns_concat_of_ne hd, List.cons_append]

theorem offsetIn_cons_succ (first : List Char) (ps : List (List Char)) (line column : Nat)
    (piece : List Char) :
    offsetIn (first :: ps) ⟨line + 1, column⟩ piece =
      first.length + 1 + offsetIn ps ⟨line, column⟩ piece := by
  simp only [offsetIn, startOfLine, List.take_succ_cons, List.foldr_cons]
  omega

section Equations

variable (line column : Nat) (text : List Char)

theorem offset_zero_of_pieces_eq {head : List Char} {rest : List (List Char)}
    (h : pieces text = head :: rest) :
    (⟨0, column⟩ : Position).offset text = fitting column (dropReturns head) := by
  have hhead : (pieces text)[(⟨0, column⟩ : Position).line]? = some head := by rw [h]; rfl
  rw [offset_of_piece hhead]
  exact Nat.zero_add _

theorem offset_zero_feed : (⟨0, column⟩ : Position).offset ('\n' :: text) = 0 := by
  rw [offset_zero_of_pieces_eq column _ (by rw [pieces_cons, if_pos rfl]), dropReturns_nil,
    fitting_nil]

theorem offset_zero_return_feed :
    (⟨0, column⟩ : Position).offset ('\r' :: '\n' :: text) = 0 := by
  have hpieces : pieces ('\r' :: '\n' :: text) = ['\r'] :: pieces text := by
    rw [pieces_cons, if_neg (by decide), pieces_cons, if_pos rfl, List.modifyHead_cons]
  rw [offset_zero_of_pieces_eq column _ hpieces]
  exact fitting_nil column

theorem offset_zero_cons {c : Char} (hr : c ≠ '\r') (hf : c ≠ '\n') :
    (⟨0, column⟩ : Position).offset (c :: text) =
      if unitsOf c ≤ column then (⟨0, column - unitsOf c⟩ : Position).offset text + 1 else 0 := by
  obtain ⟨head, rest, hsplit⟩ := List.exists_cons_of_ne_nil (pieces_ne_nil text)
  have hpieces : pieces (c :: text) = (c :: head) :: rest := by
    rw [pieces_cons, if_neg hf, hsplit, List.modifyHead_cons]
  rw [offset_zero_of_pieces_eq column _ hpieces, offset_zero_of_pieces_eq _ text hsplit,
    dropReturns_cons_of_ne hr, fitting]

theorem offset_succ_feed : (⟨line + 1, column⟩ : Position).offset ('\n' :: text) =
    (⟨line, column⟩ : Position).offset text + 1 := by
  rw [Position.offset, pieces_cons, if_pos rfl, List.getElem?_cons_succ, Position.offset]
  cases (pieces text)[line]? with
  | none => rfl
  | some piece =>
      exact (offsetIn_cons_succ [] (pieces text) line column piece).trans (Nat.add_comm _ _)

theorem offset_succ_cons {c : Char} (hf : c ≠ '\n') :
    (⟨line + 1, column⟩ : Position).offset (c :: text) =
      (⟨line + 1, column⟩ : Position).offset text + 1 := by
  obtain ⟨head, rest, hsplit⟩ := List.exists_cons_of_ne_nil (pieces_ne_nil text)
  rw [Position.offset, pieces_cons, if_neg hf, Position.offset, hsplit, List.modifyHead_cons,
    List.getElem?_cons_succ, List.getElem?_cons_succ]
  cases rest[line]? with
  | none => rfl
  | some piece =>
      simp only [offsetIn_cons_succ, List.length_cons]
      omega

end Equations

/-- A position cuts two forms of a text into two forms of the same parts. -/
theorem recoded_cut {text text' : List Char} (h : Recoded text text') (p : Position) :
    Recoded (text.take (p.offset text)) (text'.take (p.offset text')) ∧
      Recoded (text.drop (p.offset text)) (text'.drop (p.offset text')) := by
  obtain ⟨line, column⟩ := p
  induction h generalizing line column with
  | nil => exact ⟨by simpa using Recoded.nil, by simpa using Recoded.nil⟩
  | @keep c text text' hc h ih =>
      cases line with
      | zero =>
          by_cases hf : c = '\n'
          · subst hf
            rw [offset_zero_feed, offset_zero_feed]
            exact ⟨.nil, .keep hc h⟩
          · rw [offset_zero_cons column text hc hf, offset_zero_cons column text' hc hf]
            by_cases hfit : unitsOf c ≤ column
            · obtain ⟨hbefore, hbehind⟩ := ih 0 (column - unitsOf c)
              rw [if_pos hfit, if_pos hfit]
              exact ⟨.keep hc hbefore, hbehind⟩
            · rw [if_neg hfit, if_neg hfit]
              exact ⟨.nil, .keep hc h⟩
      | succ line =>
          by_cases hf : c = '\n'
          · subst hf
            obtain ⟨hbefore, hbehind⟩ := ih line column
            rw [offset_succ_feed, offset_succ_feed]
            exact ⟨.keep hc hbefore, hbehind⟩
          · obtain ⟨hbefore, hbehind⟩ := ih (line + 1) column
            rw [offset_succ_cons line column text hf, offset_succ_cons line column text' hf]
            exact ⟨.keep hc hbefore, hbehind⟩
  | @feed text text' h ih =>
      cases line with
      | zero =>
          -- However wide the column, both cuts lie in front of the whole line end.
          rw [offset_zero_feed, offset_zero_return_feed]
          exact ⟨.nil, .feed h⟩
      | succ line =>
          obtain ⟨hbefore, hbehind⟩ := ih line column
          rw [offset_succ_feed, offset_succ_cons line column ('\n' :: text') (by decide),
            offset_succ_feed]
          exact ⟨.feed hbefore, hbehind⟩

/-- The same edit with its text in two forms. -/
inductive Edit.Recoded : Edit → Edit → Prop
  | replaceAll {text text' : List Char} (h : Text.Recoded text text') :
      Recoded (.replaceAll text) (.replaceAll text')
  | replace (p q : Position) {text text' : List Char} (h : Text.Recoded text text') :
      Recoded (.replace p q text) (.replace p q text')

theorem recoded_apply_replace_of_le {p q : Position} (hpq : p ≤ q) {text text' new new' : List Char}
    (h : Recoded text text') (hnew : Recoded new new') :
    Recoded (Edit.apply text (.replace p q new)) (Edit.apply text' (.replace p q new')) := by
  rw [Edit.apply_replace_of_le hpq, Edit.apply_replace_of_le hpq]
  exact (recoded_cut h p).1.append (hnew.append (recoded_cut h q).2)

theorem recoded_apply {e e' : Edit} (he : e.Recoded e') {text text' : List Char}
    (h : Recoded text text') : Recoded (Edit.apply text e) (Edit.apply text' e') := by
  cases he with
  | replaceAll hnew => exact hnew
  | replace p q hnew =>
      rcases p.le_total q with hpq | hqp
      · exact recoded_apply_replace_of_le hpq h hnew
      · rw [Edit.apply_replace_comm, Edit.apply_replace_comm text']
        exact recoded_apply_replace_of_le hqp h hnew

end Document

/-- Two documents of one version that hold the same text in two forms. -/
structure Document.Recoded (d d' : Document) : Prop where
  version : d.version = d'.version
  text : Text.Recoded d.text d'.text

theorem Document.Recoded.edit {d d' : Document} (h : d.Recoded d')
    {edits edits' : List Document.Edit}
    (hedits : List.Forall₂ Document.Edit.Recoded edits edits') (version : Int) :
    (d.edit edits version).Recoded (d'.edit edits' version) := by
  refine ⟨rfl, ?_⟩
  have htext := h.text
  simp only [Document.edit]
  generalize d.text = text, d'.text = text' at htext
  induction hedits generalizing text text' with
  | nil => exact htext
  | cons he _ ih => exact ih _ _ (Document.recoded_apply he htext)

end FoamDict
