import FoamDict.Proofs.Document.Edit
import FoamDict.Proofs.Document.Resolution
import FoamDict.Proofs.Highlight.Alphabet
import FoamDict.Proofs.Keyword.Lookup

/-!
# Editing what is reported

A stretch of an analysed line that does not end in a carriage return keeps clear of the carriage
returns that a position leaves out. So the two ends of its extent stand for the places between which
it lies, and an edit of the extent replaces the stretch and nothing else.
-/

namespace FoamDict.Document

open FoamDict.Keyword (Catalog Documentation Hover nameAt?)
open FoamDict.Highlight (classify Span Scanned Found)
open FoamDict.Text

/-- The extent covers `cs`, which stands behind `head` on its line; an edit of the extent puts a new
text in the place of `cs` and leaves every other character as it is. -/
structure Editable (text : List Char) (e : Extent) (cs above head behind : List Char) : Prop where
  text_eq : text = above ++ (head ++ (cs ++ behind))
  starts : StartsLine text e.line above.length
  feed_not_mem : '\n' ∉ head ++ cs
  start_eq : e.start = units head
  stop_eq : e.stop = units head + units cs
  edit_eq : ∀ (new : List Char) (version version' : Int),
    (⟨text, version⟩ : FoamDict.Document).edit
        [.replace ⟨e.line, e.start⟩ ⟨e.line, e.stop⟩ new] version' =
      ⟨above ++ (head ++ (new ++ behind)), version'⟩

theorem fitting_units_of_isPrefix {cs ds : List Char} (h : cs <+: ds) :
    fitting (units cs) ds = cs.length := by
  obtain ⟨rest, rfl⟩ := h
  rw [fitting_append, if_pos le_rfl, Nat.sub_self, fitting_zero, Nat.add_zero]

/-- A stretch from the start of a line that does not end in a carriage return ends before those at
the end of the line. -/
theorem isPrefix_dropReturns {cs line : List Char} (h : cs <+: line)
    (hend : cs.getLast? ≠ some '\r') : cs <+: dropReturns line := by
  induction line using List.reverseRecOn with
  | nil => exact h
  | append_singleton line c ih =>
      by_cases hc : c = '\r'
      · subst hc
        rw [dropReturns_concat_return]
        rcases List.prefix_concat_iff.mp h with rfl | hprefix
        · exact absurd List.getLast?_concat hend
        · exact ih hprefix
      · rwa [dropReturns_concat_of_ne hc]

section Piece

variable {text piece cs rest : List Char} {index : Nat}
  (hpiece : (pieces text)[index]? = some piece)

include hpiece

theorem startsLine_closed : StartsLine text index (closed ((pieces text).take index)).length := by
  have hzero := offset_of_piece (p := ⟨index, 0⟩) hpiece
  rw [fitting_zero, Nat.add_zero] at hzero
  rw [← hzero]
  exact startsLine_offset (List.getElem?_eq_some_iff.mp hpiece).1

variable (hclear : cs <+: dropReturns piece)

include hclear

theorem take_offset_units :
    text.take ((⟨index, units cs⟩ : Position).offset text) =
      closed ((pieces text).take index) ++ cs := by
  have htake := take_offset (p := ⟨index, units cs⟩) hpiece
  obtain ⟨rest, rfl⟩ := hclear.trans (dropReturns_isPrefix piece)
  rwa [fitting_units_of_isPrefix hclear, List.take_left] at htake

theorem drop_offset_units (hrest : cs ++ rest = piece) :
    text.drop ((⟨index, units cs⟩ : Position).offset text) =
      rest ++ opened ((pieces text).drop (index + 1)) := by
  have hdrop := drop_offset (p := ⟨index, units cs⟩) hpiece
  subst hrest
  rwa [fitting_units_of_isPrefix hclear, List.drop_left] at hdrop

end Piece

/-- A stretch of an analysed line that does not end in a carriage return can be edited. -/
theorem editable_of_line {text line head cs tail : List Char} {index : Nat}
    (hline : (lines text)[index]? = some line) (hsplit : line = head ++ (cs ++ tail))
    (hne : cs ≠ []) (hend : cs.getLast? ≠ some '\r') :
    ∃ above behind,
      Editable text ⟨index, units head, units head + units cs⟩ cs above head behind := by
  rw [lines, List.getElem?_map] at hline
  obtain ⟨piece, hpiece, rfl⟩ := Option.map_eq_some_iff.mp hline
  -- The stretch ends before the carriage returns that positions leave out, so both of its ends are
  -- places that a column reaches.
  have hclear : head ++ cs <+: dropReturns piece := by
    rw [← dropReturns_dropReturn]
    refine isPrefix_dropReturns ⟨tail, ?_⟩ ?_
    · rw [hsplit, List.append_assoc]
    · rwa [List.getLast?_append_of_ne_nil _ hne]
  obtain ⟨rest, hrest⟩ := hclear.trans (dropReturns_isPrefix piece)
  refine ⟨closed ((pieces text).take index), rest ++ opened ((pieces text).drop (index + 1)),
    ?_, startsLine_closed hpiece, ?_, rfl, rfl, fun new version version' => ?_⟩
  · have hframe := eq_framed hpiece
    rw [← hrest] at hframe
    simpa only [List.append_assoc] using hframe
  · intro hfeed
    refine feed_not_mem_of_mem_pieces (List.mem_of_getElem? hpiece) ?_
    rw [← hrest]
    exact List.mem_append_left rest hfeed
  · have hle : (⟨index, units head⟩ : Position) ≤ ⟨index, units head + units cs⟩ :=
      Or.inr ⟨rfl, Nat.le_add_right _ _⟩
    have htake := take_offset_units hpiece ((List.prefix_append head cs).trans hclear)
    have hdrop := drop_offset_units hpiece hclear hrest
    rw [units_append] at hdrop
    rw [FoamDict.Document.edit, List.foldl_cons, List.foldl_nil, Edit.apply_replace_of_le hle,
      htake, hdrop, List.append_assoc]

theorem editable_of_found {catalog : Catalog} {text line : List Char} {index : Nat}
    {category : Highlight.Category} {c : Cut} (hline : (lines text)[index]? = some line)
    (h : Found catalog line category c) :
    ∃ above behind, Editable text ⟨index, c.occurrence.start, c.occurrence.stop⟩ c.text above
      c.before behind := by
  obtain ⟨_, _, hon⟩ := h.isOn
  exact editable_of_line hline hon.line_eq hon.text_ne_nil h.getLast?_ne_return

theorem editable_of_nameAt? {text line : List Char} {index column : Nat} {name : Occurrence}
    (hline : (lines text)[index]? = some line) (h : nameAt? line column = some name) :
    ∃ above head behind, Editable text ⟨index, name.start, name.stop⟩ name.text above head
      behind := by
  obtain ⟨c, hc, rfl⟩ := Keyword.exists_cut_of_nameAt? h
  obtain ⟨_, hon⟩ := isOn_of_mem_cuts hc
  obtain ⟨above, behind, hedit⟩ := editable_of_line hline hon.line_eq hon.text_ne_nil
    (Highlight.getLast?_ne_return_of_mem_words hc)
  exact ⟨above, c.before, behind, hedit⟩

/-- The span stands for what a scan has taken from its line, and can be edited. -/
def EditableSpan (catalog : Catalog) (text : List Char) (s : Span) : Prop :=
  ∃ line r cs above head behind, (lines text)[s.line]? = some line ∧
    Scanned catalog line s.category r ∧ s.StandsFor line r cs ∧
    Editable text ⟨s.line, s.start, s.start + s.length⟩ cs above head behind

/-- The extent is that of the name under the cursor, and can be edited. -/
def EditableHover (text : List Char) (p : Position) (h : Hover) : Prop :=
  ∃ line name above head behind, (lines text)[p.line]? = some line ∧
    nameAt? line p.column = some name ∧ h.extent = ⟨p.line, name.start, name.stop⟩ ∧
    Editable text h.extent name.text above head behind

/-- Every span outside comments, and every extent that hover reports, can be edited. -/
theorem reported_editable (catalog : Catalog) (text : List Char) :
    (∀ s ∈ classify catalog text, s.category ≠ .comment → EditableSpan catalog text s) ∧
      ∀ (p : Position) (h : Hover), catalog.hover? text p.line p.column = some h →
        EditableHover text p h := by
  refine ⟨fun s hs hcategory => ?_, fun p h hhover => ?_⟩
  · obtain ⟨line, c, hline, hfound, hspan⟩ :=
      Highlight.exists_found_of_mem_classify hs hcategory
    obtain ⟨above, behind, hedit⟩ := editable_of_found hline hfound
    have hstands := hfound.standsFor s.line
    rw [← hspan] at hstands
    refine ⟨line, c.byteRange, c.text, above, c.before, behind, hline, hfound.scanned, hstands, ?_⟩
    rw [hspan]
    exact hedit
  · obtain ⟨line, name, _, hline, hname, _, rfl⟩ := Keyword.hover?_eq_some_iff.mp hhover
    obtain ⟨above, head, behind, hedit⟩ := editable_of_nameAt? hline hname
    exact ⟨line, name, above, head, behind, hline, hname, rfl, hedit⟩

/-- A numeral behind a character of two units and before two carriage returns, and a documented name
at the end of the text. -/
theorem reported_editable_between :
    ⟨0, 3, 1, .number⟩ ∈
        classify ⟨[], [⟨"p", "Pressure."⟩]⟩ ['𝑥', ' ', '5', '\r', '\r', '\n', 'p'] ∧
      EditableSpan ⟨[], [⟨"p", "Pressure."⟩]⟩ ['𝑥', ' ', '5', '\r', '\r', '\n', 'p']
        ⟨0, 3, 1, .number⟩ ∧
      EditableHover ['𝑥', ' ', '5', '\r', '\r', '\n', 'p'] ⟨1, 1⟩
        ⟨⟨1, 0, 1⟩, Documentation.markdown ⟨"p", "Pressure."⟩⟩ := by
  have hspan : ⟨0, 3, 1, .number⟩ ∈ classify ⟨[], [⟨"p", "Pressure."⟩]⟩
      ['𝑥', ' ', '5', '\r', '\r', '\n', 'p'] := List.mem_mergeSort.mpr (by decide)
  have hhover : Catalog.hover? ⟨[], [⟨"p", "Pressure."⟩]⟩
      ['𝑥', ' ', '5', '\r', '\r', '\n', 'p'] 1 1 =
        some ⟨⟨1, 0, 1⟩, Documentation.markdown ⟨"p", "Pressure."⟩⟩ := by decide
  have h := reported_editable ⟨[], [⟨"p", "Pressure."⟩]⟩ ['𝑥', ' ', '5', '\r', '\r', '\n', 'p']
  exact ⟨hspan, h.1 _ hspan (by decide), h.2 ⟨1, 1⟩ _ hhover⟩

end FoamDict.Document
