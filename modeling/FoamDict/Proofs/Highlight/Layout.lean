import FoamDict.Proofs.Highlight.Source
import FoamDict.Proofs.Keyword.Catalog

/-!
# The layout of the spans of a text

The spans of a text are those of its lines, one line after the other, each line's sorted by start.
Spans that start at one place come from different scans, since no scan takes two stretches at one
place, and stand in the order in which the scans are made: word, numeral, quotation.
-/

namespace FoamDict.Highlight

open FoamDict.Keyword (Catalog Sections)
open FoamDict.Text

/-- The place in the order of scans of the one that finds spans of a category. -/
def Category.layer : Category → Nat
  | number => 1
  | string => 2
  | _ => 0

theorem Category.layer_eq_zero {category : Category} (hnumber : category ≠ .number)
    (hstring : category ≠ .string) : category.layer = 0 := by
  cases category with
  | number => exact absurd rfl hnumber
  | string => exact absurd rfl hstring
  | dictionary | list | lvalue | comment | rvalue => rfl

theorem Category.eq_string_of_layer_eq {category : Category}
    (h : category.layer = Category.layer .string) : category = .string := by
  cases category with
  | string => rfl
  | dictionary | list | lvalue | comment | number | rvalue => cases h

/-- The rule of the scan that finds spans of a category. -/
def Category.rule (category : Category) : LengthRule :=
  match category.layer with
  | 0 => wordLength
  | 1 => Numeral.lengthAt
  | _ => Quotation.lengthAt

theorem Category.rule_eq_of_layer_eq {category other : Category}
    (h : category.layer = other.layer) : category.rule = other.rule := by
  rw [rule, rule, h]

theorem layer_of_category? {sections : Sections} {identifier : String} {category : Category}
    (h : (Catalog.assemble sections).category? identifier = some category) :
    category.layer = 0 := by
  have hlisted := Catalog.category_of_category? h
  simp only [List.mem_cons, List.not_mem_nil, or_false] at hlisted
  rcases hlisted with rfl | rfl | rfl | rfl <;> rfl

/-- What is found for a category is cut by the rule of the category. -/
theorem Found.mem_cuts {sections : Sections} {line : List Char} {category : Category} {c : Cut}
    (h : Found (Catalog.assemble sections) line category c) : c ∈ cuts category.rule line := by
  cases h with
  | word hc hcategory => rwa [Category.rule, layer_of_category? hcategory]
  | numeral hc => exact hc
  | quotation hc => exact hc

def Span.startsBefore (a b : Span) : Bool := a.start ≤ b.start

section ByLine

variable (catalog : Catalog)

/-- The spans of line `index` by start, for the comment block that may be open before it. -/
def lineLayout (ls : List (List Char)) (index : Nat) (line : List Char) : List Span :=
  (lineSpans catalog index (Comment.openBefore ls index) line).mergeSort Span.startsBefore

theorem mergeSort_lineSpans (index : Nat) (inside : Bool) (line : List Char) :
    (lineSpans catalog index inside line).mergeSort Span.notAfter =
      (lineSpans catalog index inside line).mergeSort Span.startsBefore := by
  have hsame : ∀ a ∈ lineSpans catalog index inside line,
      ∀ b ∈ lineSpans catalog index inside line, a.notAfter b = a.startsBefore b := by
    intro a ha b hb
    have hline := line_of_mem_lineSpans catalog ha
    have hline' := line_of_mem_lineSpans catalog hb
    simp [Span.notAfter, Span.startsBefore, hline, hline']
  simpa using List.map_mergeSort (f := id) hsame

theorem spansFrom_cons (index : Nat) (inside : Bool) (line : List Char) (ls : List (List Char)) :
    spansFrom catalog index inside (line :: ls) =
      (lineSpans catalog index inside line).mergeSort Span.startsBefore
        ++ spansFrom catalog (index + 1) (Comment.openAfter inside line) ls := by
  have hsplit := spansFrom_append catalog index inside [line] ls
  rw [List.singleton_append] at hsplit
  rw [hsplit, spansFrom, collect, collect, List.append_nil, mergeSort_lineSpans]
  rfl

theorem spansFrom_eq_flatMap (above ls : List (List Char)) :
    spansFrom catalog above.length (above.foldl Comment.openAfter false) ls =
      (ls.zipIdx above.length).flatMap fun (line, index) =>
        lineLayout catalog (above ++ ls) index line := by
  induction ls generalizing above with
  | nil => simp [spansFrom, collect]
  | cons line ls ih =>
      have hopen : Comment.openBefore (above ++ line :: ls) above.length =
          above.foldl Comment.openAfter false := by
        rw [Comment.openBefore, List.take_left]
      have hbelow := ih (above ++ [line])
      rw [List.length_append, List.length_singleton, List.foldl_concat, List.append_assoc,
        List.singleton_append] at hbelow
      rw [spansFrom_cons, hbelow, List.zipIdx_cons, List.flatMap_cons]
      simp only [lineLayout, hopen]

theorem classify_eq_flatMap (text : List Char) :
    classify catalog text = (lines text).zipIdx.flatMap fun (line, index) =>
      lineLayout catalog (lines text) index line :=
  spansFrom_eq_flatMap catalog [] (lines text)

end ByLine

section Layers

variable {catalog : Catalog}

/-- Of two spans at one place, the first belongs to the scan made earlier. -/
def Span.Layered (a b : Span) : Prop :=
  a.notAfter b → b.notAfter a → a.category.layer < b.category.layer

theorem Span.layered_of_start_lt {a b : Span} (hline : a.line = b.line) (h : a.start < b.start) :
    a.Layered b := by
  intro _ hge
  rw [Span.notAfter_iff] at hge
  omega

theorem Span.layered_of_line_lt {a b : Span} (h : a.line < b.line) : a.Layered b := by
  intro _ hge
  rw [Span.notAfter_iff] at hge
  omega

theorem pairwise_map_occurrences (index : Nat) (category : Category) (rule : LengthRule)
    (line : List Char) :
    ((occurrences rule line).map (Span.ofOccurrence index category)).Pairwise Span.Layered := by
  refine List.pairwise_map.mpr ((pairwise_occurrences rule line).imp fun {a b} hab => ?_)
  exact Span.layered_of_start_lt rfl (Nat.lt_of_lt_of_le hab.1 hab.2)

theorem pairwise_wordSpans (index : Nat) (line : List Char) :
    (wordSpans catalog index line).Pairwise Span.Layered := by
  refine (pairwise_occurrences wordLength line).filterMap _ fun {a b} hab s hs t ht => ?_
  obtain ⟨category, _, rfl⟩ := Option.map_eq_some_iff.mp hs
  obtain ⟨category', _, rfl⟩ := Option.map_eq_some_iff.mp ht
  exact Span.layered_of_start_lt rfl (Nat.lt_of_lt_of_le hab.1 hab.2)

variable (hwords : ∀ identifier category,
  catalog.category? identifier = some category → category.layer = 0)

include hwords

theorem layer_of_mem_wordSpans {index : Nat} {line : List Char} {s : Span}
    (h : s ∈ wordSpans catalog index line) : s.category.layer = 0 := by
  obtain ⟨word, _, hs⟩ := List.mem_filterMap.mp h
  obtain ⟨category, hcategory, rfl⟩ := Option.map_eq_some_iff.mp hs
  exact hwords _ _ hcategory

theorem pairwise_codeSpans (index : Nat) (line : List Char) :
    (codeSpans catalog index line).Pairwise Span.Layered := by
  have hnumber : ∀ b ∈ (numerals line).map (Span.ofOccurrence index .number),
      b.category.layer = 1 := by
    intro b hb
    obtain ⟨o, _, rfl⟩ := List.mem_map.mp hb
    rfl
  have hstring : ∀ b ∈ (quotations line).map (Span.ofOccurrence index .string),
      b.category.layer = 2 := by
    intro b hb
    obtain ⟨o, _, rfl⟩ := List.mem_map.mp hb
    rfl
  refine List.pairwise_append.mpr ⟨List.pairwise_append.mpr ⟨pairwise_wordSpans index line,
    pairwise_map_occurrences index .number _ line, fun a ha b hb _ _ => ?_⟩,
    pairwise_map_occurrences index .string _ line, fun a ha b hb _ _ => ?_⟩
  · rw [layer_of_mem_wordSpans hwords ha, hnumber b hb]
    exact Nat.one_pos
  · rw [hstring b hb]
    rcases List.mem_append.mp ha with ha | ha
    · rw [layer_of_mem_wordSpans hwords ha]
      exact Nat.two_pos
    · rw [hnumber a ha]
      exact Nat.one_lt_two

theorem pairwise_lineSpans (index : Nat) (inside : Bool) (line : List Char) :
    (lineSpans catalog index inside line).Pairwise Span.Layered := by
  rw [lineSpans]
  apply List.Pairwise.filter
  split
  · exact List.pairwise_singleton _ _
  · exact pairwise_codeSpans hwords index line

theorem pairwise_collect (index : Nat) (inside : Bool) (ls : List (List Char)) :
    (collect catalog index inside ls).Pairwise Span.Layered := by
  induction ls generalizing index inside with
  | nil => exact List.Pairwise.nil
  | cons line ls ih =>
      rw [collect]
      refine List.pairwise_append.mpr ⟨pairwise_lineSpans hwords index inside line, ih _ _,
        fun a ha b hb => Span.layered_of_line_lt ?_⟩
      have hline := line_of_mem_lineSpans catalog ha
      have hbelow := (line_of_mem_collect catalog hb).1
      omega

/-- Sorting by line and start keeps spans at one place in the order of the scans. -/
theorem pairwise_classify (text : List Char) :
    (classify catalog text).Pairwise Span.Layered :=
  pairwise_mergeSort_of_tied Span.notAfter_trans Span.notAfter_total
    (pairwise_collect hwords 0 false (lines text))

end Layers

/-- The spans of a text are pieces of its lines, in order. -/
structure Layout (catalog : Catalog) (text : List Char) (spans : List Span) : Prop where
  obtained : classify? catalog text = some spans
  pieces : ∀ s ∈ spans, 0 < s.length ∧ ∃ line r cs, (lines text)[s.line]? = some line ∧
    Source catalog (Comment.openBefore (lines text) s.line) line s r ∧ s.StandsFor line r cs
  sorted : spans.Pairwise fun a b => a.line < b.line ∨ a.line = b.line ∧ a.start ≤ b.start
  by_line : spans = (lines text).zipIdx.flatMap fun (line, index) =>
    lineLayout catalog (lines text) index line
  layered : spans.Pairwise fun a b =>
    a.line = b.line → a.start = b.start → a.category.layer < b.category.layer

theorem classify_layout (sections : Sections) (text : List Char) :
    Layout (Catalog.assemble sections) text (classify (Catalog.assemble sections) text) := by
  have hwords : ∀ identifier category,
      (Catalog.assemble sections).category? identifier = some category → category.layer = 0 := by
    intro identifier category hcategory
    have hmem := Catalog.category_of_category? hcategory
    simp only [List.mem_cons, List.not_mem_nil, or_false] at hmem
    rcases hmem with rfl | rfl | rfl | rfl <;> rfl
  refine ⟨classify?_eq _ text, fun s hs => ?_, ?_, classify_eq_flatMap _ text, ?_⟩
  · obtain ⟨line, hline, hmem⟩ := exists_line_of_mem_classify hs
    obtain ⟨r, cs, hsource, hstands⟩ := exists_source_of_mem_lineSpans hmem
    exact ⟨(mem_lineSpans_iff.mp hmem).1, line, r, cs, hline, hsource, hstands⟩
  · exact (inOrder_classify _ text).imp fun hab => Span.notAfter_iff.mp hab
  · refine (pairwise_classify hwords text).imp fun {a b} hab hline hstart => ?_
    apply hab
    · exact Span.notAfter_iff.mpr (Or.inr ⟨hline, Nat.le_of_eq hstart⟩)
    · exact Span.notAfter_iff.mpr (Or.inr ⟨hline.symm, Nat.le_of_eq hstart.symm⟩)

end FoamDict.Highlight
