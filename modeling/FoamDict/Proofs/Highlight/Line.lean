import Mathlib.Order.Nat
import FoamDict.Proofs.Highlight.Layout
import FoamDict.Proofs.Text.Column
import FoamDict.Proofs.Text.Leftmost

/-!
# The spans of one line

The spans of a text that are on one of its lines are those of the line, for the comment block that
may be open before it. A comment line is one span. On a line of code, the spans of a category that
one scan finds are what the scan takes, in the order in which it takes them.
-/

namespace FoamDict.Highlight

open FoamDict.Keyword (Catalog Sections)
open FoamDict.Text

variable (catalog : Catalog) {text line : List Char} {i : Nat}

/-- The spans of a text on one of its lines are the spans of the line. -/
theorem filter_line_classify (hget : (lines text)[i]? = some line) :
    (classify catalog text).filter (·.line = i) = lineLayout catalog (lines text) i line := by
  obtain ⟨hlength, rfl⟩ := List.getElem?_eq_some_iff.mp hget
  have hbefore : ∀ s ∈ spansFrom catalog 0 false ((lines text).take i), ¬ s.line = i := by
    intro s hs
    exact Nat.ne_of_lt (line_lt_of_mem_take catalog hs)
  have hbehind : ∀ s ∈ spansFrom catalog (i + 1)
      (Comment.openAfter (Comment.openBefore (lines text) i) (lines text)[i])
      ((lines text).drop (i + 1)), ¬ s.line = i := by
    intro s hs
    have hline := (line_of_mem_spansFrom catalog hs).1
    omega
  have hhere : ∀ s ∈ lineLayout catalog (lines text) i (lines text)[i], s.line = i := by
    intro s hs
    exact line_of_mem_lineSpans catalog (List.mem_mergeSort.mp hs)
  rw [classify_eq_spansFrom, spansFrom_split catalog _ hlength.le,
    List.drop_eq_getElem_cons hlength, spansFrom_cons, ← lineLayout, List.filter_append,
    List.filter_append,
    List.filter_eq_nil_iff.mpr (by simpa using hbefore),
    List.filter_eq_self.mpr (by simpa using hhere),
    List.filter_eq_nil_iff.mpr (by simpa using hbehind), List.nil_append, List.append_nil]

/-- The spans of a line of code, as those of line 0. -/
def codeLayout (line : List Char) : List Span :=
  ((codeSpans catalog 0 line).filter (0 < ·.length)).mergeSort Span.startsBefore

variable {ls : List (List Char)}

theorem lineLayout_of_covers (h : Comment.covers (Comment.openBefore ls i) line) :
    lineLayout catalog ls i line = if line = [] then [] else [⟨i, 0, units line, .comment⟩] := by
  rw [lineLayout, lineSpans, if_pos h]
  by_cases hempty : line = []
  · have hlength : ¬ 0 < (commentSpan i line).length := by simp [commentSpan, hempty]
    rw [if_pos hempty, List.filter_cons_of_neg (by simpa using hlength), List.filter_nil,
      List.mergeSort_nil]
  · have hlength : 0 < (commentSpan i line).length := units_pos hempty
    rw [if_neg hempty, List.filter_cons_of_pos (by simpa using hlength), List.filter_nil,
      List.mergeSort_singleton, commentSpan]

theorem lineLayout_of_not_covers (h : ¬ Comment.covers (Comment.openBefore ls i) line) :
    lineLayout catalog ls i line = (codeLayout catalog line).map (Span.down i) := by
  have hspans : lineSpans catalog i (Comment.openBefore ls i) line =
      ((codeSpans catalog 0 line).filter (0 < ·.length)).map (Span.down i) := by
    have hmove := lineSpans_add catalog 0 i (Comment.openBefore ls i) line
    rw [Nat.zero_add] at hmove
    rw [hmove, lineSpans, if_neg h]
  have hsame (a b : Span) : a.startsBefore b = (a.down i).startsBefore (b.down i) := rfl
  rw [lineLayout, hspans, codeLayout, List.map_mergeSort fun a _ b _ => hsame a b]

theorem category_ne_comment_of_mem_codeLayout {sections : Sections} {s : Span}
    (h : s ∈ codeLayout (Catalog.assemble sections) line) : s.category ≠ .comment := by
  rw [codeLayout, List.mem_mergeSort] at h
  obtain ⟨c, hfound, _⟩ := exists_found_of_mem_codeSpans (List.mem_of_mem_filter h)
  generalize s.category = category at hfound
  cases hfound with
  | word _ hcategory =>
      have hlisted := Catalog.category_of_category? hcategory
      rintro rfl
      simp at hlisted
  | numeral _ => exact Category.noConfusion
  | quotation _ => exact Category.noConfusion

theorem Span.startsBefore_trans (a b c : Span) (hab : a.startsBefore b) (hbc : b.startsBefore c) :
    a.startsBefore c := by
  rw [startsBefore, decide_eq_true_eq] at *
  exact hab.trans hbc

theorem Span.startsBefore_total (a b : Span) : a.startsBefore b || b.startsBefore a := by
  rw [startsBefore, startsBefore, Bool.or_eq_true, decide_eq_true_eq, decide_eq_true_eq]
  exact Nat.le_total _ _

section Category

variable {category other : Category} {rule : LengthRule}

theorem filter_map_ofOccurrence_self (index : Nat) (os : List Occurrence) :
    (os.map (Span.ofOccurrence index category)).filter (·.category = category) =
      os.map (Span.ofOccurrence index category) := by
  rw [List.filter_eq_self]
  intro s hs
  obtain ⟨o, -, rfl⟩ := List.mem_map.mp hs
  exact decide_eq_true rfl

theorem filter_map_ofOccurrence_of_ne (h : other ≠ category) (index : Nat) (os : List Occurrence) :
    (os.map (Span.ofOccurrence index other)).filter (·.category = category) = [] := by
  rw [List.filter_eq_nil_iff]
  intro s hs
  obtain ⟨o, -, rfl⟩ := List.mem_map.mp hs
  exact mt of_decide_eq_true h

theorem filter_wordSpans_of_forall_ne
    (h : ∀ identifier, catalog.category? identifier ≠ some category) (index : Nat)
    (line : List Char) :
    (wordSpans catalog index line).filter (·.category = category) = [] := by
  rw [List.filter_eq_nil_iff]
  intro s hs
  obtain ⟨word, -, hword⟩ := List.mem_filterMap.mp hs
  obtain ⟨found, hfound, rfl⟩ := Option.map_eq_some_iff.mp hword
  intro hcategory
  obtain rfl : found = category := of_decide_eq_true hcategory
  exact h _ hfound

/-- The spans of a category that is not one of words are what the scan of the category takes. -/
theorem filter_category_codeSpans (sections : Sections) (hlayer : category.layer ≠ 0)
    (line : List Char) :
    (codeSpans (Catalog.assemble sections) 0 line).filter (·.category = category) =
      (occurrences category.rule line).map (Span.ofOccurrence 0 category) := by
  have hwords : ∀ identifier,
      (Catalog.assemble sections).category? identifier ≠ some category :=
    fun _ hcategory => hlayer (layer_of_category? hcategory)
  rw [codeSpans, List.filter_append, List.filter_append, filter_wordSpans_of_forall_ne _ hwords,
    List.nil_append]
  cases category with
  | number =>
      rw [filter_map_ofOccurrence_self, filter_map_ofOccurrence_of_ne Category.noConfusion,
        List.append_nil]
      rfl
  | string =>
      rw [filter_map_ofOccurrence_self, filter_map_ofOccurrence_of_ne Category.noConfusion,
        List.nil_append]
      rfl
  | dictionary | list | lvalue | comment | rvalue => exact absurd rfl hlayer

/-- What one scan takes is in order already and has no empty stretch. -/
theorem filter_category_codeLayout
    (h : (codeSpans catalog 0 line).filter (·.category = category) =
      (occurrences rule line).map (Span.ofOccurrence 0 category)) :
    (codeLayout catalog line).filter (·.category = category) =
      (occurrences rule line).map (Span.ofOccurrence 0 category) := by
  have hkept : ((codeSpans catalog 0 line).filter (0 < ·.length)).filter (·.category = category) =
      (occurrences rule line).map (Span.ofOccurrence 0 category) := by
    rw [List.filter_comm, h, List.filter_eq_self]
    intro s hs
    obtain ⟨o, ho, rfl⟩ := List.mem_map.mp hs
    obtain ⟨c, hc, rfl⟩ := exists_cut_of_mem_occurrences ho
    obtain ⟨_, hon⟩ := isOn_of_mem_cuts hc
    exact decide_eq_true (units_pos hon.text_ne_nil)
  have hsorted : ((occurrences rule line).map (Span.ofOccurrence 0 category)).Pairwise
      (Span.startsBefore · ·) := by
    refine List.pairwise_map.mpr ((pairwise_occurrences rule line).imp fun {a b} hab => ?_)
    exact decide_eq_true (hab.1.le.trans hab.2)
  rw [codeLayout, filter_mergeSort_of_pairwise Span.startsBefore_trans Span.startsBefore_total,
    hkept]
  rw [hkept]
  exact hsorted

/-- The span of a stretch of a line that goes from one place to another. -/
def Span.ofPlaces (index : Nat) (category : Category) (line : List Char) (places : Nat × Nat) :
    Span :=
  ⟨index, units (line.take places.1), units (line.extract places.1 places.2), category⟩

def Span.stop (s : Span) : Nat := s.start + s.length

theorem Span.stop_ofPlaces (index : Nat) (category : Category) {places : Nat × Nat}
    (h : places.1 ≤ places.2) :
    (Span.ofPlaces index category line places).stop = units (line.take places.2) := by
  rw [Span.stop, Span.ofPlaces, List.extract_eq_take_drop, ← units_take_add,
    Nat.add_sub_cancel' h]

/-- The span marks `cs` on its line, where it stands behind `before` and in front of `behind`. -/
structure Span.Marks (s : Span) (line before cs behind : List Char) : Prop where
  line_eq : line = before ++ (cs ++ behind)
  start_eq : s.start = units before
  length_eq : s.length = units cs

theorem ofOccurrence_eq_ofPlaces (index : Nat) (category : Category) {c : Cut}
    {behind : List Char} (h : line = c.before ++ (c.text ++ behind)) :
    Span.ofOccurrence index category c.occurrence =
      Span.ofPlaces index category line c.places := by
  rw [Span.ofPlaces, Cut.take_places h, Cut.extract_places h]
  rfl

theorem map_ofOccurrence_occurrences (index : Nat) (category : Category) (rule : LengthRule)
    (line : List Char) :
    (occurrences rule line).map (Span.ofOccurrence index category) =
      ((cuts rule line).map Cut.places).map (Span.ofPlaces index category line) := by
  rw [occurrences_eq_map_cuts, List.map_map, List.map_map]
  refine List.map_congr_left fun c hc => ?_
  obtain ⟨behind, hon⟩ := isOn_of_mem_cuts hc
  exact ofOccurrence_eq_ofPlaces index category hon.line_eq

/-- On a line of code, the spans of a category that one scan finds are the stretches it takes. -/
theorem filter_category_classify (hget : (lines text)[i]? = some line)
    (hcode : ¬ Comment.covers (Comment.openBefore (lines text) i) line)
    (h : (codeSpans catalog 0 line).filter (·.category = category) =
      (occurrences rule line).map (Span.ofOccurrence 0 category)) :
    (classify catalog text).filter (fun s => s.line = i ∧ s.category = category) =
      ((cuts rule line).map Cut.places).map (Span.ofPlaces i category line) := by
  have hboth : (classify catalog text).filter (fun s => s.line = i ∧ s.category = category) =
      ((classify catalog text).filter (·.line = i)).filter (·.category = category) := by
    rw [List.filter_filter]
    refine List.filter_congr fun s _ => ?_
    rw [Bool.decide_and, Bool.and_comm]
  have hsame : (fun s : Span => decide (s.category = category)) ∘ Span.down i =
      fun s => decide (s.category = category) := rfl
  have hmoved : Span.down i ∘ Span.ofOccurrence 0 category = Span.ofOccurrence i category := by
    funext o
    simp [Span.down, Span.ofOccurrence]
  rw [hboth, filter_line_classify catalog hget, lineLayout_of_not_covers catalog hcode,
    List.filter_map, hsame, filter_category_codeLayout catalog h, List.map_map, hmoved,
    map_ofOccurrence_occurrences]

end Category

/-- A span that is no comment marks what the scan for its category has cut out of its line. -/
theorem exists_cut_of_mem_classify {sections : Sections} {s : Span}
    (h : s ∈ classify (Catalog.assemble sections) text) (hcategory : s.category ≠ .comment) :
    ∃ line c behind, (lines text)[s.line]? = some line ∧ c ∈ cuts s.category.rule line ∧
      s = Span.ofOccurrence s.line s.category c.occurrence ∧
      s.Marks line c.before c.text behind := by
  obtain ⟨line, c, hget, hfound, hspan⟩ := exists_found_of_mem_classify h hcategory
  have hc := hfound.mem_cuts
  obtain ⟨behind, hon⟩ := isOn_of_mem_cuts hc
  refine ⟨line, c, behind, hget, hc, hspan, hon.line_eq, ?_, ?_⟩
  · rw [hspan]
    rfl
  · rw [hspan]
    rfl

end FoamDict.Highlight
