import FoamDict.Proofs.Document.Position

/-!
# Positions and the lines of the analysis

The lines that are analysed lose one carriage return at their end, where a position leaves out all
of them. The two agree on a column exactly when the line ends in no carriage return or the column
stops short of those at its end; otherwise the position stands for a smaller offset. So the end of
a whole line, as an extent gives it, is the end of that line for a position exactly when the line
ends in no carriage return.
-/

namespace FoamDict.Document

open FoamDict.Text

theorem dropReturns_dropReturn (piece : List Char) :
    dropReturns (dropReturn piece) = dropReturns piece := by
  cases piece using List.reverseRecOn with
  | nil => rfl
  | append_singleton cs c =>
      by_cases hc : c = '\r'
      · rw [hc, dropReturn_append_return, dropReturns_concat_return]
      · rw [dropReturn_of_getLast?_ne (by simpa using hc)]

theorem fitting_replicate_return_eq_zero_iff (column m : Nat) :
    fitting column (List.replicate (m + 1) '\r') = 0 ↔ column = 0 := by
  have hunit : unitsOf '\r' = 1 := rfl
  rw [List.replicate_succ]
  cases column with
  | zero => simp [fitting_zero]
  | succ column => simp [fitting_cons_of_le, hunit]

/-- Leaving out the carriage returns at the end of a line moves exactly the columns behind the first
of them. -/
theorem fitting_dropReturns_eq_iff (column : Nat) (line : List Char) :
    fitting column (dropReturns line) = fitting column line ↔
      line.getLast? ≠ some '\r' ∨ column ≤ units (dropReturns line) := by
  cases line using List.reverseRecOn with
  | nil => simp
  | append_singleton cs c =>
      by_cases hc : c = '\r'
      · obtain ⟨m, hm⟩ := exists_eq_dropReturns_append cs
        have hline : cs ++ ['\r'] = dropReturns cs ++ List.replicate (m + 1) '\r' := by
          rw [List.replicate_succ', ← List.append_assoc, ← hm]
        rw [hc, dropReturns_concat_return, hline, fitting_append]
        by_cases hle : units (dropReturns cs) ≤ column
        · have hzero := fitting_replicate_return_eq_zero_iff (column - units (dropReturns cs)) m
          rw [if_pos hle, fitting_of_units_le hle, ← hline]
          simp only [List.getLast?_concat, ne_eq, not_true_eq_false, false_or]
          omega
        · rw [if_neg hle]
          simp only [true_iff]
          exact Or.inr (by omega)
      · simp [dropReturns_concat_of_ne hc, hc]

theorem units_dropReturns_lt {line : List Char} (h : line.getLast? = some '\r') :
    units (dropReturns line) < units line := by
  cases line using List.reverseRecOn with
  | nil => simp at h
  | append_singleton cs c =>
      obtain rfl : c = '\r' := by simpa using h
      obtain ⟨rest, hrest⟩ := dropReturns_isPrefix cs
      have hunits := congrArg units hrest
      have hpos := unitsOf_pos '\r'
      simp only [units_append] at hunits
      rw [dropReturns_concat_return, units_append, units_cons, units_nil]
      omega

/-- The line with number `index` starts at offset `start`. -/
structure StartsLine (text : List Char) (index start : Nat) : Prop where
  le_length : start ≤ text.length
  feeds : (text.take start).count '\n' = index
  fresh : ∀ c, (text.take start).getLast? = some c → c = '\n'

theorem count_feed_closed {ps : List (List Char)} (h : ∀ p ∈ ps, '\n' ∉ p) :
    (closed ps).count '\n' = ps.length := by
  have hlength := length_pieces (closed ps)
  have hsplit := pieces_closed_append h []
  rw [List.append_nil] at hsplit
  rw [hsplit] at hlength
  simpa using hlength.symm

theorem eq_feed_of_getLast?_closed {ps : List (List Char)} {c : Char}
    (h : (closed ps).getLast? = some c) : c = '\n' := by
  cases ps using List.reverseRecOn with
  | nil => simp at h
  | append_singleton ps p => simpa [eq_comm] using h

/-- The first column of a line stands for its start. -/
theorem startsLine_offset {text : List Char} {index : Nat} (h : index < (pieces text).length) :
    StartsLine text index ((⟨index, 0⟩ : Position).offset text) := by
  have hbefore : text.take ((⟨index, 0⟩ : Position).offset text) =
      closed ((pieces text).take index) := by
    rw [take_offset (List.getElem?_eq_getElem h), fitting_zero, List.take_zero, List.append_nil]
  refine ⟨offset_le_length text _, ?_, ?_⟩
  · rw [hbefore, count_feed_closed fun p hp => feed_not_mem_of_mem_take hp, List.length_take]
    exact Nat.min_eq_left h.le
  · intro c hc
    rw [hbefore] at hc
    exact eq_feed_of_getLast?_closed hc

theorem StartsLine.le {text : List Char} {index start start' : Nat}
    (h : StartsLine text index start) (h' : StartsLine text index start') : start' ≤ start := by
  -- Between two starts of one line no line feed could stand, yet one ends what is before the later.
  by_contra! hlt
  obtain ⟨d, rfl⟩ := Nat.exists_eq_add_of_lt hlt
  let between := (text.drop start).take (d + 1)
  have htake : text.take (start + d + 1) = text.take start ++ between := by
    rw [Nat.add_assoc, List.take_add]
  have hne : between ≠ [] := by
    have hlength := h'.le_length
    simp only [between, ne_eq, List.take_eq_nil_iff, List.drop_eq_nil_iff]
    omega
  have hcount : between.count '\n' = 0 := by
    have hfeeds := h'.feeds
    rw [htake, List.count_append, h.feeds] at hfeeds
    omega
  have hlast : between.getLast hne = '\n' := by
    apply h'.fresh
    rw [htake, List.getLast?_append_of_ne_nil _ hne, List.getLast?_eq_some_getLast hne]
  exact List.count_eq_zero.mp hcount (hlast ▸ List.getLast_mem hne)

theorem StartsLine.unique {text : List Char} {index start start' : Nat}
    (h : StartsLine text index start) (h' : StartsLine text index start') : start = start' :=
  Nat.le_antisymm (h'.le h) (h.le h')

/-- A position in a line stands for the start of the line and as many characters as fit into the
column before the carriage returns at its end. -/
theorem offset_eq_start_add {text line : List Char} {p : Position}
    (h : (lines text)[p.line]? = some line) :
    p.offset text =
      (⟨p.line, 0⟩ : Position).offset text + fitting p.column (dropReturns line) := by
  rw [lines, List.getElem?_map] at h
  obtain ⟨piece, hpiece, rfl⟩ := Option.map_eq_some_iff.mp h
  have hzero : (pieces text)[(⟨p.line, 0⟩ : Position).line]? = some piece := hpiece
  rw [offset_of_piece hpiece, offset_of_piece hzero, dropReturns_dropReturn, fitting_zero]
  rfl

theorem offset_eq_start_add_fitting_iff {text line : List Char} {p : Position}
    (h : (lines text)[p.line]? = some line) :
    p.offset text = (⟨p.line, 0⟩ : Position).offset text + fitting p.column line ↔
      line.getLast? ≠ some '\r' ∨ p.column ≤ units (dropReturns line) := by
  rw [offset_eq_start_add h, ← fitting_dropReturns_eq_iff]
  exact Nat.add_left_cancel_iff

/-- The start of the line and the most characters of `content` that the column has room for. -/
def ResolvesIn (text content : List Char) (p : Position) (offset : Nat) : Prop :=
  ∃ start k, StartsLine text p.line start ∧
    IsGreatest {k | k ≤ content.length ∧ units (content.take k) ≤ p.column} k ∧ offset = start + k

theorem resolvesIn_iff {text content : List Char} {p : Position} {offset : Nat}
    (h : p.line < (lines text).length) :
    ResolvesIn text content p offset ↔
      offset = (⟨p.line, 0⟩ : Position).offset text + fitting p.column content := by
  have hstart := startsLine_offset (length_lines text ▸ h)
  have hfit := isGreatest_fitting p.column content
  constructor
  · rintro ⟨start, k, hs, hk, rfl⟩
    rw [hs.unique hstart, hk.unique hfit]
  · rintro rfl
    exact ⟨_, _, hstart, hfit, rfl⟩

/-- A line without any of the carriage returns at its end is what a position is resolved in. The
line as it is analysed would give the same offset exactly when it ends in no carriage return or the
column does not reach behind the first of them; in particular the end of its extent is its end only
in the first case. Lines behind the last stand for the end of the text. -/
theorem offset_resolution (text : List Char) (p : Position) :
    (∀ line, (lines text)[p.line]? = some line →
      ResolvesIn text (dropReturns line) p (p.offset text) ∧
      (ResolvesIn text line p (p.offset text) ↔
        line.getLast? ≠ some '\r' ∨ p.column ≤ units (dropReturns line)) ∧
      ∀ start, StartsLine text p.line start →
        ((⟨p.line, (Extent.ofLine p.line line).stop⟩ : Position).offset text =
          start + line.length ↔ line.getLast? ≠ some '\r')) ∧
    ((lines text).length ≤ p.line → p.offset text = text.length) := by
  refine ⟨fun line h => ?_, fun h => offset_of_length_le (length_lines text ▸ h)⟩
  have hlt : p.line < (lines text).length := (List.getElem?_eq_some_iff.mp h).1
  refine ⟨?_, ?_, fun start hstart => ?_⟩
  · exact (resolvesIn_iff hlt).mpr (offset_eq_start_add h)
  · rw [resolvesIn_iff hlt]
    exact offset_eq_start_add_fitting_iff h
  · let stop : Position := ⟨p.line, units line⟩
    have hstop : (lines text)[stop.line]? = some line := h
    have hline := offset_eq_start_add_fitting_iff hstop
    have hlength : fitting stop.column line = line.length := fitting_of_units_le le_rfl
    rw [hlength] at hline
    rw [hstart.unique (startsLine_offset (length_lines text ▸ hlt))]
    refine hline.trans (or_iff_left_of_imp fun hunits hreturn => ?_)
    exact absurd hunits (Nat.not_le.mpr (units_dropReturns_lt hreturn))

theorem not_resolvesIn_behind_return :
    ¬ ResolvesIn ['a', '\r', '\r', '\n', 'b'] ['a', '\r'] ⟨0, 2⟩
      ((⟨0, 2⟩ : Position).offset ['a', '\r', '\r', '\n', 'b']) := by
  have hline : (lines ['a', '\r', '\r', '\n', 'b'])[0]? = some ['a', '\r'] := by decide
  rw [((offset_resolution ['a', '\r', '\r', '\n', 'b'] ⟨0, 2⟩).1 ['a', '\r'] hline).2.1]
  decide

end FoamDict.Document
