import FoamDict.Proofs.Document.Extent
import FoamDict.Proofs.Text.LineEnd

/-!
# Taking an edit back

A text ends at the position whose line counts its line feeds and whose column is as wide as what
stands behind the last of them. That position stands for the end of the text whatever is put behind
it, unless a carriage return comes right before. So an edit at a position between two characters is
taken back by an edit between this position and the one at which the new text ends.
-/

namespace FoamDict.Document

open FoamDict.Text

/-- What stands behind the last line feed. -/
def lastPiece (text : List Char) : List Char := text.rtakeWhile fun c => c ≠ '\n'

theorem lastPiece_concat_feed (text : List Char) : lastPiece (text ++ ['\n']) = [] :=
  List.rtakeWhile_concat_neg _ _ _ (by decide)

theorem lastPiece_concat_of_ne (text : List Char) {c : Char} (h : c ≠ '\n') :
    lastPiece (text ++ [c]) = lastPiece text ++ [c] :=
  List.rtakeWhile_concat_pos _ _ _ (by simpa using h)

/-- Only what stands behind the last line feed goes on from the text before. -/
theorem lastPiece_append (text new : List Char) :
    lastPiece (text ++ new) = if '\n' ∈ new then lastPiece new else lastPiece text ++ new := by
  induction new using List.reverseRecOn with
  | nil => simp
  | append_singleton cs c ih =>
      rw [← List.append_assoc]
      by_cases hc : c = '\n'
      · rw [hc, lastPiece_concat_feed, lastPiece_concat_feed, if_pos (by simp)]
      · have hmem : '\n' ∈ cs ++ [c] ↔ '\n' ∈ cs := by simp [Ne.symm hc]
        rw [lastPiece_concat_of_ne _ hc, lastPiece_concat_of_ne _ hc, ih]
        simp only [hmem]
        split
        · rfl
        · rw [List.append_assoc]

theorem lastPiece_closed_append (ps : List (List Char)) {cs : List Char} (h : '\n' ∉ cs) :
    lastPiece (closed ps ++ cs) = cs := by
  have hclosed : lastPiece (closed ps) = [] := by
    cases ps using List.reverseRecOn with
    | nil => rfl
    | append_singleton ps p =>
        rw [closed_append, closed_cons, closed_nil, lastPiece_append, if_pos (by simp),
          lastPiece_concat_feed]
  rw [lastPiece_append, if_neg h, hclosed, List.nil_append]

/-- The position at which a text ends. -/
def Position.endOf (text : List Char) : Position := ⟨text.count '\n', units (lastPiece text)⟩

/-- The position at which a text ends that starts at `p`. -/
def Position.advance (p : Position) (new : List Char) : Position :=
  if '\n' ∈ new then ⟨p.line + new.count '\n', units (lastPiece new)⟩
  else ⟨p.line, p.column + units new⟩

theorem endOf_append (text new : List Char) :
    Position.endOf (text ++ new) = (Position.endOf text).advance new := by
  rw [Position.endOf, List.count_append, lastPiece_append, Position.advance]
  split
  · rfl
  · rename_i hfeed
    rw [List.count_eq_zero.mpr hfeed, units_append]
    rfl

theorem endOf_closed_append {ps : List (List Char)} {cs : List Char} (hps : ∀ p ∈ ps, '\n' ∉ p)
    (h : '\n' ∉ cs) : Position.endOf (closed ps ++ cs) = ⟨ps.length, units cs⟩ := by
  rw [Position.endOf, List.count_append, count_feed_closed hps, List.count_eq_zero.mpr h,
    lastPiece_closed_append ps h, Nat.add_zero]

theorem le_advance (p : Position) (new : List Char) : p ≤ p.advance new := by
  rw [Position.advance]
  split
  · rename_i hfeed
    have hpos := List.count_pos_iff.mpr hfeed
    exact Or.inl (Nat.lt_add_of_pos_right hpos)
  · exact Or.inr ⟨rfl, Nat.le_add_right _ _⟩

/-- Where a text ends that does not end in a carriage return, whatever stands behind it. -/
theorem offset_endOf {before : List Char} (h : before.getLast? ≠ some '\r') (rest : List Char) :
    (Position.endOf before).offset (before ++ rest) = before.length := by
  obtain ⟨ps, cs, rfl, hps, hcs⟩ := exists_eq_closed_append before
  obtain ⟨first, more, hfirst⟩ := List.exists_cons_of_ne_nil (pieces_ne_nil rest)
  have hpieces : pieces (closed ps ++ cs ++ rest) = ps ++ (cs ++ first) :: more := by
    rw [List.append_assoc, pieces_closed_append hps, pieces_append_of_feed_not_mem hcs, hfirst,
      List.modifyHead_cons]
  have hpiece : (pieces (closed ps ++ cs ++ rest))[ps.length]? = some (cs ++ first) := by
    rw [hpieces, List.getElem?_append_right le_rfl, Nat.sub_self, List.getElem?_cons_zero]
  have hend : cs.getLast? ≠ some '\r' := by
    by_cases hempty : cs = []
    · simp [hempty]
    · rwa [List.getLast?_append_of_ne_nil _ hempty] at h
  have hclear : cs <+: dropReturns (cs ++ first) :=
    isPrefix_dropReturns (List.prefix_append cs first) hend
  rw [endOf_closed_append hps hcs, offset_of_piece (p := ⟨ps.length, units cs⟩) hpiece, hpieces,
    List.take_left, fitting_units_of_isPrefix hclear, List.length_append]

/-- A position between two characters of a line is one at which a leading stretch of the text
ends. -/
theorem exists_endOf_eq {text head tail : List Char} {p : Position} (hpaired : ReturnsPaired text)
    (hline : (lines text)[p.line]? = some (head ++ tail)) (hcolumn : p.column = units head) :
    ∃ before rest, text = before ++ rest ∧ Position.endOf before = p ∧
      before.getLast? ≠ some '\r' := by
  have hreturn : '\r' ∉ head ++ tail := hpaired.return_not_mem (List.mem_of_getElem? hline)
  rw [lines, List.getElem?_map] at hline
  obtain ⟨piece, hpiece, hdrop⟩ := Option.map_eq_some_iff.mp hline
  obtain ⟨rest, hrest⟩ : head <+: piece := by
    refine (List.prefix_append head tail).trans ?_
    rw [← hdrop]
    exact dropReturn_isPrefix piece
  have hfeed : '\n' ∉ head := fun hmem =>
    feed_not_mem_of_mem_pieces (List.mem_of_getElem? hpiece)
      (hrest ▸ List.mem_append_left rest hmem)
  refine ⟨closed ((pieces text).take p.line) ++ head,
    rest ++ opened ((pieces text).drop (p.line + 1)), ?_, ?_, ?_⟩
  · have hframe := eq_framed hpiece
    rw [← hrest] at hframe
    simpa only [List.append_assoc] using hframe
  · rw [endOf_closed_append (fun _ hp => feed_not_mem_of_mem_take hp) hfeed,
      List.length_take_of_le (List.getElem?_eq_some_iff.mp hpiece).1.le, ← hcolumn]
  · intro hlast
    by_cases hempty : head = []
    · rw [hempty, List.append_nil] at hlast
      cases eq_feed_of_getLast?_closed hlast
    · rw [List.getLast?_append_of_ne_nil _ hempty] at hlast
      exact hreturn (List.mem_append_left tail (List.mem_of_getLast? hlast))

/-- The characters between two positions. -/
def between (p q : Position) (text : List Char) : List Char :=
  text.extract (p.offset text) (q.offset text)

theorem apply_replace_between {text before removed rest : List Char} {p q : Position}
    (htext : text = before ++ (removed ++ rest)) (hstart : p.offset text = before.length)
    (hstop : q.offset text = (before ++ removed).length) (hpq : p ≤ q) (new : List Char) :
    Edit.apply text (.replace p q new) = before ++ (new ++ rest) := by
  have hsplit : text = (before ++ removed) ++ rest := by rw [htext, List.append_assoc]
  have htake : text.take before.length = before := by rw [htext, List.take_left]
  have hdrop : text.drop (before ++ removed).length = rest := by rw [hsplit, List.drop_left]
  rw [Edit.apply_replace_of_le hpq, hstart, hstop, htake, hdrop]

/-- What stands between a text that ends at the first position and the second one. -/
theorem eq_append_between {text before behind : List Char} {p q : Position}
    (htext : text = before ++ behind) (hstart : p.offset text = before.length) (hpq : p ≤ q) :
    ∃ rest, text = before ++ (between p q text ++ rest) ∧
      q.offset text = (before ++ between p q text).length := by
  obtain ⟨n, hn⟩ := Nat.exists_eq_add_of_le (offset_le_offset text hpq)
  rw [hstart] at hn
  have hbetween : between p q text = behind.take n := by
    rw [between, hstart, hn, List.extract_eq_take_drop, htext, List.drop_left,
      Nat.add_sub_cancel_left]
  have hlength : n ≤ behind.length := by
    have hle := offset_le_length text q
    rw [hn, htext, List.length_append] at hle
    exact Nat.le_of_add_le_add_left hle
  refine ⟨behind.drop n, ?_, ?_⟩
  · rw [hbetween, List.take_append_drop, htext]
  · rw [hbetween, List.length_append, List.length_take_of_le hlength, hn]

/-- An edit at a position between two characters leaves the text that ends there, the new text and
what stood behind the text removed. It is taken back by putting what it removed in the place of what
it put there. -/
theorem edit_undone {d : FoamDict.Document} {p q : Position} {new head tail : List Char}
    (htext : ReturnsPaired d.text) (hnew : ReturnsPaired new)
    (hline : (lines d.text)[p.line]? = some (head ++ tail)) (hcolumn : p.column = units head)
    (hpq : p ≤ q) (version version' : Int) :
    (∃ before rest, Position.endOf before = p ∧
      d.text = before ++ (between p q d.text ++ rest) ∧
      d.edit [.replace p q new] version = ⟨before ++ (new ++ rest), version⟩) ∧
    (d.edit [.replace p q new] version).edit
        [.replace p (p.advance new) (between p q d.text)] version' = ⟨d.text, version'⟩ := by
  obtain ⟨before, behind, hsplit, rfl, hend⟩ := exists_endOf_eq htext hline hcolumn
  have hstart : (Position.endOf before).offset d.text = before.length := by
    rw [hsplit]
    exact offset_endOf hend behind
  obtain ⟨rest, hbetween, hstop⟩ := eq_append_between hsplit hstart hpq
  have hedited := apply_replace_between hbetween hstart hstop hpq new
  -- Neither the text before nor that text with the new one behind it ends in a carriage return.
  have hend' : (before ++ new).getLast? ≠ some '\r' := by
    by_cases hempty : new = []
    · rwa [hempty, List.append_nil]
    · rw [List.getLast?_append_of_ne_nil _ hempty]
      exact hnew.getLast?_ne
  have hstart' := offset_endOf hend (new ++ rest)
  have hstop' := offset_endOf hend' rest
  rw [endOf_append, List.append_assoc] at hstop'
  have hundone := apply_replace_between rfl hstart' hstop'
    (le_advance (Position.endOf before) new) (between (Position.endOf before) q d.text)
  have hfirst : d.edit [.replace (Position.endOf before) q new] version =
      ⟨before ++ (new ++ rest), version⟩ := by
    rw [FoamDict.Document.edit, List.foldl_cons, List.foldl_nil, hedited]
  refine ⟨⟨before, rest, rfl, hbetween, hfirst⟩, ?_⟩
  rw [hfirst, FoamDict.Document.edit, List.foldl_cons, List.foldl_nil, hundone, ← hbetween]

/-- Behind a character of two units, the edit joins two lines and opens a new one. -/
theorem edit_undone_across_lines :
    ReturnsPaired ['a', '\r', '\n', '𝑥', 'b', '\n', 'c'] ∧ ReturnsPaired ['\r', '\n', 'y'] ∧
      (lines ['a', '\r', '\n', '𝑥', 'b', '\n', 'c'])[1]? = some (['𝑥'] ++ ['b']) ∧
      (⟨1, 2⟩ : Position) ≤ ⟨2, 0⟩ ∧
      (∃ before rest, Position.endOf before = ⟨1, 2⟩ ∧
        ['a', '\r', '\n', '𝑥', 'b', '\n', 'c'] = before ++ (['b', '\n'] ++ rest) ∧
        (⟨['a', '\r', '\n', '𝑥', 'b', '\n', 'c'], 1⟩ : FoamDict.Document).edit
          [.replace ⟨1, 2⟩ ⟨2, 0⟩ ['\r', '\n', 'y']] 2 =
            ⟨before ++ (['\r', '\n', 'y'] ++ rest), 2⟩) ∧
      ((⟨['a', '\r', '\n', '𝑥', 'b', '\n', 'c'], 1⟩ : FoamDict.Document).edit
          [.replace ⟨1, 2⟩ ⟨2, 0⟩ ['\r', '\n', 'y']] 2).edit
          [.replace ⟨1, 2⟩ ⟨2, 1⟩ ['b', '\n']] 3 =
        ⟨['a', '\r', '\n', '𝑥', 'b', '\n', 'c'], 3⟩ := by
  have htext : ReturnsPaired ['a', '\r', '\n', '𝑥', 'b', '\n', 'c'] := by decide
  have hnew : ReturnsPaired ['\r', '\n', 'y'] := by decide
  have hline : (lines ['a', '\r', '\n', '𝑥', 'b', '\n', 'c'])[1]? = some (['𝑥'] ++ ['b']) := by
    decide
  have hpq : (⟨1, 2⟩ : Position) ≤ ⟨2, 0⟩ := by decide
  have hadvance : (⟨1, 2⟩ : Position).advance ['\r', '\n', 'y'] = ⟨2, 1⟩ := by decide
  have hbetween : between ⟨1, 2⟩ ⟨2, 0⟩ ['a', '\r', '\n', '𝑥', 'b', '\n', 'c'] = ['b', '\n'] := by
    decide
  have h := @edit_undone ⟨['a', '\r', '\n', '𝑥', 'b', '\n', 'c'], 1⟩ ⟨1, 2⟩ ⟨2, 0⟩
    ['\r', '\n', 'y'] ['𝑥'] ['b'] htext hnew hline (by decide) hpq 2 3
  rw [hadvance, hbetween] at h
  exact ⟨htext, hnew, hline, hpq, h.1, h.2⟩

end FoamDict.Document
