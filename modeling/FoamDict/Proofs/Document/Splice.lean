import FoamDict.Document.Bounded
import FoamDict.Proofs.Document.Edit

/-!
# Every edit is a splice

A position stands for an offset of the text wherever it lies, and a later position for no smaller
one. So whatever the positions of an edit are, and in either order, it takes characters out and puts
others in within the bounds of the text that the edits before it left: no list of edits fails, and
each edit replaces what lies between two offsets and nothing else.
-/

namespace FoamDict.Document

open FoamDict.Text

theorem withFeeds_concat (ps : List (List Char)) (last : List Char) :
    withFeeds (ps ++ [last]) = ps.map (· ++ ['\n']) ++ [last] := by
  induction ps with
  | nil => rfl
  | cons piece ps ih =>
      cases ps with
      | nil => rfl
      | cons next rest => exact congrArg ((piece ++ ['\n']) :: ·) ih

theorem length_withFeeds (ps : List (List Char)) : (withFeeds ps).length = ps.length := by
  cases ps using List.reverseRecOn with
  | nil => rfl
  | append_singleton ps last => rw [withFeeds_concat, List.length_append, List.length_map,
      List.length_append]

/-- Before each line stand the earlier pieces with their line feeds. -/
theorem flatten_take_withFeeds {ps : List (List Char)} {index : Nat} (h : index < ps.length) :
    ((withFeeds ps).take index).flatten = closed (ps.take index) := by
  cases ps using List.reverseRecOn with
  | nil => cases h
  | append_singleton ps last =>
      rw [List.length_append, List.length_singleton] at h
      have hle : index ≤ ps.length := Nat.le_of_lt_succ h
      rw [withFeeds_concat, List.take_append_of_le_length (by rwa [List.length_map]),
        List.take_append_of_le_length hle, ← List.map_take, closed, List.flatMap_def]

/-- A line is its piece, with a line feed behind it unless it is the last. -/
theorem getElem?_withFeeds {ps : List (List Char)} {index : Nat} {piece : List Char}
    (h : ps[index]? = some piece) :
    (withFeeds ps)[index]? = some (piece ++ ['\n']) ∨ (withFeeds ps)[index]? = some piece := by
  cases ps using List.reverseRecOn with
  | nil => cases h
  | append_singleton ps last =>
      rw [withFeeds_concat]
      by_cases hindex : index < ps.length
      · rw [List.getElem?_append_left hindex] at h
        left
        rw [List.getElem?_append_left (by rwa [List.length_map]), List.getElem?_map, h]
        rfl
      · right
        rw [List.getElem?_append_right (Nat.not_lt.mp hindex)] at h
        rwa [List.getElem?_append_right (by rw [List.length_map]; exact Nat.not_lt.mp hindex),
          List.length_map]

theorem dropLineEnd_eq_rdropWhile (line : List Char) :
    dropLineEnd line = line.rdropWhile fun c => c = '\n' || c = '\r' := rfl

theorem dropLineEnd_concat_feed (cs : List Char) : dropLineEnd (cs ++ ['\n']) = dropLineEnd cs := by
  simp [dropLineEnd_eq_rdropWhile]

theorem dropLineEnd_of_feed_not_mem {cs : List Char} (h : '\n' ∉ cs) :
    dropLineEnd cs = dropReturns cs := by
  induction cs using List.reverseRecOn with
  | nil => rfl
  | append_singleton cs c ih =>
      rw [List.mem_append, List.mem_singleton, not_or] at h
      have hfeed : c ≠ '\n' := Ne.symm h.2
      by_cases hc : c = '\r'
      · rw [hc, dropReturns_concat_return, ← ih h.1, dropLineEnd_eq_rdropWhile,
          List.rdropWhile_concat_pos _ _ _ (by decide), dropLineEnd_eq_rdropWhile]
      · rw [dropReturns_concat_of_ne hc, dropLineEnd_eq_rdropWhile,
          List.rdropWhile_concat_neg _ _ _ (by simp [hfeed, hc])]

/-- Every position has its offset. -/
theorem offset?_eq (text : List Char) (p : Position) : p.offset? text = some (p.offset text) := by
  rw [Position.offset?, length_withFeeds]
  by_cases hp : (pieces text).length ≤ p.line
  · rw [if_pos hp, offset_of_length_le hp]
  · have hlt : p.line < (pieces text).length := Nat.not_le.mp hp
    have hpiece := List.getElem?_eq_getElem hlt
    have hfeed := feed_not_mem_of_mem_pieces (List.getElem_mem hlt)
    have hstart : lineStart? (withFeeds (pieces text)) p.line =
        some (closed ((pieces text).take p.line)).length := by
      rw [lineStart?, length_withFeeds, if_pos hlt.le, flatten_take_withFeeds hlt]
    rw [if_neg hp, hstart, offset_of_piece hpiece]
    rcases getElem?_withFeeds hpiece with hline | hline
    · simp [hline, dropLineEnd_concat_feed, dropLineEnd_of_feed_not_mem hfeed]
    · simp [hline, dropLineEnd_of_feed_not_mem hfeed]

theorem insert?_remove? {text : List Char} {start stop : Nat} (hle : start ≤ stop)
    (hlength : stop ≤ text.length) (new : List Char) :
    (remove? text start stop).bind (insert? · start new) =
      some (text.take start ++ (new ++ text.drop stop)) := by
  have hstart : (text.take start).length = start :=
    List.length_take_of_le (hle.trans hlength)
  have hplace : start ≤ (text.take start ++ text.drop stop).length := by
    rw [List.length_append, hstart]
    exact Nat.le_add_right _ _
  rw [remove?, if_pos ⟨hle, hlength⟩, Option.bind_some, insert?, if_pos hplace,
    List.take_left' hstart, List.drop_left' hstart]

/-- The places that two positions stand for, in order and within the text. -/
structure Bounds (text : List Char) (p q : Position) (start stop : Nat) : Prop where
  start_eq : p.offset? text = some start
  stop_eq : q.offset? text = some stop
  start_le : start ≤ stop
  stop_le : stop ≤ text.length

theorem bounds_of_le (text : List Char) {p q : Position} (h : p ≤ q) :
    Bounds text p q (p.offset text) (q.offset text) :=
  ⟨offset?_eq text p, offset?_eq text q, offset_le_offset text h, offset_le_length text q⟩

theorem Bounds.result?_replace {text : List Char} {p q : Position} {start stop : Nat}
    (h : Bounds text p q start stop) (new : List Char) :
    Edit.result? text (.replace p q new) = some (text.take start ++ (new ++ text.drop stop)) := by
  have hsplice := insert?_remove? h.start_le h.stop_le new
  simp only [Edit.result?, h.start_eq, h.stop_eq, Option.bind_eq_bind, Option.bind_some,
    if_neg (Nat.not_lt.mpr h.start_le)]
  exact hsplice

theorem result?_replace_comm (text : List Char) (p q : Position) (new : List Char) :
    Edit.result? text (.replace p q new) = Edit.result? text (.replace q p new) := by
  simp only [Edit.result?, offset?_eq, Option.bind_eq_bind, Option.bind_some]
  rcases Nat.lt_trichotomy (p.offset text) (q.offset text) with hlt | heq | hlt
  · rw [if_neg (Nat.not_lt.mpr hlt.le), if_pos hlt]
  · rw [heq]
  · rw [if_pos hlt, if_neg (Nat.not_lt.mpr hlt.le)]

/-- No edit fails. -/
theorem result?_eq (text : List Char) (e : Edit) :
    Edit.result? text e = some (Edit.apply text e) := by
  cases e with
  | replaceAll new => rfl
  | replace p q new =>
      rcases p.le_total q with hpq | hqp
      · rw [(bounds_of_le text hpq).result?_replace, Edit.apply_replace_of_le hpq]
      · rw [result?_replace_comm, (bounds_of_le text hqp).result?_replace,
          Edit.apply_replace_comm, Edit.apply_replace_of_le hqp]

theorem foldlM_result?_eq (edits : List Edit) (text : List Char) :
    edits.foldlM Edit.result? text = some (edits.foldl Edit.apply text) := by
  induction edits generalizing text with
  | nil => rfl
  | cons e edits ih =>
      rw [List.foldlM_cons, result?_eq, List.foldl_cons, ← ih]
      rfl

section Documents

variable (d : FoamDict.Document)

/-- No list of edits fails. -/
theorem edit?_eq (edits : List Edit) (version : Int) :
    d.edit? edits version = some (d.edit edits version) := by
  rw [FoamDict.Document.edit?, foldlM_result?_eq]
  rfl

/-- Later edits are made on the text that the earlier ones left. -/
theorem edit?_append (edits later : List Edit) (version version' : Int) :
    d.edit? (edits ++ later) version' = (d.edit edits version).edit? later version' := by
  rw [edit?_eq, edit?_eq, FoamDict.Document.edit, FoamDict.Document.edit,
    FoamDict.Document.edit, List.foldl_append]

theorem edit?_cons {e : Edit} {text : List Char} (h : Edit.result? d.text e = some text)
    (later : List Edit) (version version' : Int) :
    d.edit? (e :: later) version' = (⟨text, version⟩ : FoamDict.Document).edit? later version' := by
  rw [FoamDict.Document.edit?, List.foldlM_cons, h]
  rfl

end Documents

/-- Positions in order stand for places in order, within the text. No list of edits fails; an edit
between two positions, in either order, replaces what lies between their places in the text that the
edits before it left, an edit of the whole text makes those before it irrelevant, and the version is
the one that is given. -/
theorem edits_splice :
    (∀ (text : List Char) (p q : Position), p ≤ q → ∃ start stop, Bounds text p q start stop) ∧
    ∀ (d : FoamDict.Document) (edits : List Edit) (version : Int),
      ∃ text, d.edit? edits version = some ⟨text, version⟩ ∧
        ∀ (later : List Edit) (new : List Char) (version' : Int),
          (∀ (p q : Position) (start stop : Nat), Bounds text p q start stop →
            d.edit? (edits ++ .replace p q new :: later) version' =
              (⟨text.take start ++ (new ++ text.drop stop), version⟩ : FoamDict.Document).edit?
                later version') ∧
          (∀ p q : Position,
            d.edit? (edits ++ .replace p q new :: later) version' =
              d.edit? (edits ++ .replace q p new :: later) version') ∧
          d.edit? (edits ++ .replaceAll new :: later) version' =
            (⟨new, version⟩ : FoamDict.Document).edit? later version' := by
  refine ⟨fun text p q h => ⟨_, _, bounds_of_le text h⟩, fun d edits version => ?_⟩
  refine ⟨(d.edit edits version).text, edit?_eq d edits version, fun later new version' => ?_⟩
  refine ⟨fun p q start stop hbounds => ?_, fun p q => ?_, ?_⟩
  · rw [edit?_append d edits _ version]
    exact edit?_cons _ (hbounds.result?_replace new) later version version'
  · have heither := result?_eq (d.edit edits version).text (.replace q p new)
    rw [edit?_append d edits _ version, edit?_append d edits _ version,
      edit?_cons _ heither later version version',
      edit?_cons _ ((result?_replace_comm _ p q new).trans heither) later version version']
  · rw [edit?_append d edits _ version]
    exact edit?_cons _ rfl later version version'

/-- Between a place inside a character of two units and one past the end of the line above. -/
theorem edits_splice_backwards :
    (⟨0, 9⟩ : Position) ≤ ⟨1, 1⟩ ∧
      Bounds ['a', '\r', '\n', '𝑥'] ⟨0, 9⟩ ⟨1, 1⟩ 1 3 ∧
      (⟨['a', '\r', '\n', '𝑥'], 1⟩ : FoamDict.Document).edit? [.replace ⟨1, 1⟩ ⟨0, 9⟩ ['b']] 2 =
        some ⟨['a', 'b', '𝑥'], 2⟩ := by
  have hle : (⟨0, 9⟩ : Position) ≤ ⟨1, 1⟩ := by decide
  obtain ⟨start, stop, hbounds⟩ := edits_splice.1 ['a', '\r', '\n', '𝑥'] ⟨0, 9⟩ ⟨1, 1⟩ hle
  obtain rfl : 1 = start := Option.some.inj hbounds.start_eq
  obtain rfl : 3 = stop := Option.some.inj hbounds.stop_eq
  obtain ⟨text, htext, hedit⟩ := edits_splice.2 ⟨['a', '\r', '\n', '𝑥'], 1⟩ [] 1
  obtain rfl : ['a', '\r', '\n', '𝑥'] = text :=
    congrArg FoamDict.Document.text (Option.some.inj htext)
  obtain ⟨hreplace, hswap, -⟩ := hedit [] ['b'] 2
  exact ⟨hle, hbounds, (hswap ⟨1, 1⟩ ⟨0, 9⟩).trans (hreplace _ _ _ _ hbounds)⟩

end FoamDict.Document
