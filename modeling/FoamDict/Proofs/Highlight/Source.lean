import FoamDict.Proofs.Highlight.Offsets
import FoamDict.Proofs.Highlight.Order

/-!
# What spans stand for

Every span of a text lies on one of its lines. On a comment line it stands for the whole line, on
any other for a word of the catalog, a numeral or a quotation that a scan has taken there. Cutting
its columns out of the line gives back exactly these characters.
-/

namespace FoamDict.Highlight

open FoamDict.Keyword (Catalog)
open FoamDict.Text

/-- The range of bytes is one that the scan for spans of the category has taken. -/
inductive Scanned (catalog : Catalog) (line : List Char) : Category → ByteRange → Prop
  | word {category : Category} {r : ByteRange} {cs : List Char}
      (hr : r ∈ byteRanges wordLength line) (hslice : slice? line r = some cs)
      (hcategory : catalog.category? (String.ofList cs) = some category) :
      Scanned catalog line category r
  | numeral {r : ByteRange} (hr : r ∈ byteRanges Numeral.lengthAt line) :
      Scanned catalog line .number r
  | quotation {r : ByteRange} (hr : r ∈ byteRanges Quotation.lengthAt line) :
      Scanned catalog line .string r

/-- The characters `cs` at the bytes `r` are what the columns of the span cut out of the line. -/
structure Span.StandsFor (s : Span) (line : List Char) (r : ByteRange) (cs : List Char) : Prop where
  slice_eq : slice? line r = some cs
  columns_eq : columnSpan? line r.first r.last = some (s.start, s.length)
  stop_le : s.start + s.length ≤ units line
  units_eq : ofUtf16? (((utf16 line).drop s.start).take s.length) = some cs

/-- As `Scanned`, for the cut that the scan makes. -/
inductive Found (catalog : Catalog) (line : List Char) : Category → Cut → Prop
  | word {category : Category} {c : Cut} (hc : c ∈ cuts wordLength line)
      (hcategory : catalog.category? (String.ofList c.text) = some category) :
      Found catalog line category c
  | numeral {c : Cut} (hc : c ∈ cuts Numeral.lengthAt line) : Found catalog line .number c
  | quotation {c : Cut} (hc : c ∈ cuts Quotation.lengthAt line) : Found catalog line .string c

section Line

variable {catalog : Catalog} {index : Nat} {line : List Char} {s : Span} {c : Cut}

theorem standsFor_ofOccurrence (index : Nat) (category : Category)
    {behind : List Char} (h : line = c.before ++ (c.text ++ behind)) :
    (Span.ofOccurrence index category c.occurrence).StandsFor line c.byteRange c.text := by
  subst h
  refine ⟨slice?_bytes _ _ _, columnSpan?_bytes _ _ _, ?_, ofUtf16?_take_drop_utf16 _ _ _⟩
  rw [units_append, units_append, ← Nat.add_assoc]
  exact Nat.le_add_right _ _

theorem Found.isOn {category : Category} (h : Found catalog line category c) :
    ∃ rule behind, c.IsOn rule line behind := by
  cases h with
  | word hc _ => exact ⟨_, isOn_of_mem_cuts hc⟩
  | numeral hc => exact ⟨_, isOn_of_mem_cuts hc⟩
  | quotation hc => exact ⟨_, isOn_of_mem_cuts hc⟩

theorem byteRange_mem {rule : LengthRule} (h : c ∈ cuts rule line) :
    c.byteRange ∈ byteRanges rule line := by
  rw [byteRanges_eq_map_cuts]
  exact List.mem_map_of_mem h

theorem Found.standsFor {category : Category} (h : Found catalog line category c) (index : Nat) :
    (Span.ofOccurrence index category c.occurrence).StandsFor line c.byteRange c.text := by
  obtain ⟨_, _, hon⟩ := h.isOn
  exact standsFor_ofOccurrence index category hon.line_eq

theorem Found.scanned {category : Category} (h : Found catalog line category c) :
    Scanned catalog line category c.byteRange := by
  have hslice := (h.standsFor 0).slice_eq
  cases h with
  | word hc hcategory => exact .word (byteRange_mem hc) hslice hcategory
  | numeral hc => exact .numeral (byteRange_mem hc)
  | quotation hc => exact .quotation (byteRange_mem hc)

theorem exists_found_of_mem_codeSpans (h : s ∈ codeSpans catalog index line) :
    ∃ c, Found catalog line s.category c ∧ s = Span.ofOccurrence index s.category c.occurrence := by
  simp only [codeSpans, wordSpans, List.mem_append, List.mem_filterMap, List.mem_map] at h
  rcases h with (⟨word, hword, hs⟩ | ⟨o, ho, rfl⟩) | ⟨o, ho, rfl⟩
  · obtain ⟨category, hcategory, rfl⟩ := Option.map_eq_some_iff.mp hs
    obtain ⟨c, hc, rfl⟩ := exists_cut_of_mem_occurrences hword
    exact ⟨c, .word hc hcategory, rfl⟩
  · obtain ⟨c, hc, rfl⟩ := exists_cut_of_mem_occurrences ho
    exact ⟨c, .numeral hc, rfl⟩
  · obtain ⟨c, hc, rfl⟩ := exists_cut_of_mem_occurrences ho
    exact ⟨c, .quotation hc, rfl⟩

theorem mem_lineSpans_iff {inside : Bool} :
    s ∈ lineSpans catalog index inside line ↔
      0 < s.length ∧ if Comment.covers inside line then s = commentSpan index line
        else s ∈ codeSpans catalog index line := by
  rw [lineSpans, List.mem_filter, decide_eq_true_eq, and_comm]
  split
  · rw [List.mem_singleton]
  · rfl

/-- A span of a comment line stands for the line, any other for what was found. -/
inductive Source (catalog : Catalog) (inside : Bool) (line : List Char) (s : Span) :
    ByteRange → Prop
  | comment (hcovers : Comment.covers inside line) (hcategory : s.category = .comment) :
      Source catalog inside line s ⟨0, bytes line⟩
  | code {r : ByteRange} (hcovers : ¬ Comment.covers inside line)
      (hscanned : Scanned catalog line s.category r) : Source catalog inside line s r

theorem exists_source_of_mem_lineSpans {inside : Bool}
    (h : s ∈ lineSpans catalog index inside line) :
    ∃ r cs, Source catalog inside line s r ∧ s.StandsFor line r cs := by
  have hs := (mem_lineSpans_iff.mp h).2
  split at hs
  case isTrue hcovers =>
      have hwhole : line = [] ++ (line ++ []) := by simp
      have hrange : (⟨[], line⟩ : Cut).byteRange = ⟨0, bytes line⟩ := by simp [Cut.byteRange]
      have hstands := standsFor_ofOccurrence (c := ⟨[], line⟩) index .comment hwhole
      rw [hrange] at hstands
      subst hs
      exact ⟨_, line, .comment hcovers rfl, hstands⟩
  case isFalse hcovers =>
      obtain ⟨c, hfound, hs⟩ := exists_found_of_mem_codeSpans hs
      refine ⟨c.byteRange, c.text, .code hcovers hfound.scanned, ?_⟩
      rw [hs]
      exact hfound.standsFor index

end Line

variable {catalog : Catalog} {s : Span}

theorem exists_line_of_mem_collect {index : Nat} {inside : Bool} {ls : List (List Char)}
    (h : s ∈ collect catalog index inside ls) :
    ∃ i line, ls[i]? = some line ∧ s.line = index + i ∧
      s ∈ lineSpans catalog s.line ((ls.take i).foldl Comment.openAfter inside) line := by
  induction ls generalizing index inside with
  | nil => simp [collect] at h
  | cons line ls ih =>
      rw [collect, List.mem_append] at h
      rcases h with h | h
      · have hline := line_of_mem_lineSpans catalog h
        refine ⟨0, line, rfl, hline, ?_⟩
        rwa [hline]
      · obtain ⟨i, line', hget, hline, hs⟩ := ih h
        refine ⟨i + 1, line', hget, by omega, hs⟩

/-- Every span of a text is one of the spans of its line. -/
theorem exists_line_of_mem_classify {text : List Char} (h : s ∈ classify catalog text) :
    ∃ line, (lines text)[s.line]? = some line ∧
      s ∈ lineSpans catalog s.line (Comment.openBefore (lines text) s.line) line := by
  obtain ⟨i, line, hget, hline, hs⟩ := exists_line_of_mem_collect (List.mem_mergeSort.mp h)
  rw [Nat.zero_add] at hline
  subst hline
  exact ⟨line, hget, hs⟩

/-- Every span of a text that is no comment is what a scan has found on its line. -/
theorem exists_found_of_mem_classify {text : List Char} (h : s ∈ classify catalog text)
    (hcategory : s.category ≠ .comment) :
    ∃ line c, (lines text)[s.line]? = some line ∧ Found catalog line s.category c ∧
      s = Span.ofOccurrence s.line s.category c.occurrence := by
  obtain ⟨line, hline, hmem⟩ := exists_line_of_mem_classify h
  have hspan := (mem_lineSpans_iff.mp hmem).2
  split at hspan
  case isTrue => exact absurd (congrArg (·.category) hspan) hcategory
  case isFalse =>
    obtain ⟨c, hfound, hc⟩ := exists_found_of_mem_codeSpans hspan
    exact ⟨line, c, hline, hfound, hc⟩

end FoamDict.Highlight
