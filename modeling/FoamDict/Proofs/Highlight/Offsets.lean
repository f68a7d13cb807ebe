import FoamDict.Highlight.Offsets
import FoamDict.Proofs.Text.Scan
import FoamDict.Proofs.Text.Slice

/-!
# Byte offsets have columns

The bytes of what a scan takes begin and end between two characters of the line, so each range has
its characters, its start column and its width. Classification over byte offsets therefore never
fails, and gives the spans that counting in columns gives.
-/

namespace FoamDict.Highlight

open FoamDict.Keyword (Catalog)
open FoamDict.Text

section Ranges

variable {β : Type} {rule : LengthRule} {line : List Char}

theorem mapM_eq_some_map {α : Type} {f : α → Option β} {g : α → β} {l : List α}
    (h : ∀ a ∈ l, f a = some (g a)) : l.mapM f = some (l.map g) := by
  induction l with
  | nil => rfl
  | cons a l ih =>
      have hrest := ih fun b hb => h b (List.mem_cons_of_mem a hb)
      simp [h a List.mem_cons_self, hrest]

/-- What can be done with each range that a scan reports can be done with all of them. -/
theorem mapM_byteRanges {f : ByteRange → Option β} {g : Occurrence → β}
    (h : ∀ (c : Cut) behind, line = c.before ++ (c.text ++ behind) →
      f c.byteRange = some (g c.occurrence)) :
    (byteRanges rule line).mapM f = some ((occurrences rule line).map g) := by
  have hcuts : (cuts rule line).mapM (fun c => f c.byteRange) =
      some ((cuts rule line).map fun c => g c.occurrence) := by
    apply mapM_eq_some_map
    intro c hc
    obtain ⟨behind, hon⟩ := isOn_of_mem_cuts hc
    exact h c behind hon.line_eq
  rw [byteRanges_eq_map_cuts, occurrences_eq_map_cuts, List.mapM_map, List.map_map]
  exact hcuts

theorem ofByteRange?_byteRange (index : Nat) (category : Category) {c : Cut} {behind : List Char}
    (h : line = c.before ++ (c.text ++ behind)) :
    Span.ofByteRange? index category line c.byteRange =
      some (Span.ofOccurrence index category c.occurrence) := by
  rw [Span.ofByteRange?, Cut.byteRange, h, columnSpan?_bytes]
  rfl

/-- The span of a word that the catalog knows, and nothing for another. -/
def wordSpan (catalog : Catalog) (index : Nat) (word : Occurrence) : List Span :=
  ((catalog.category? (String.ofList word.text)).map fun c =>
    Span.ofOccurrence index c word).toList

theorem wordSpan?_byteRange (catalog : Catalog) (index : Nat) {c : Cut} {behind : List Char}
    (h : line = c.before ++ (c.text ++ behind)) :
    wordSpan? catalog index line c.byteRange = some (wordSpan catalog index c.occurrence) := by
  have hslice : slice? line c.byteRange = some c.text := by
    rw [Cut.byteRange, h, slice?_bytes]
  rw [wordSpan?, hslice, wordSpan, Cut.occurrence]
  cases hcategory : catalog.category? (String.ofList c.text) with
  | none => simp [hcategory]
  | some category => simp [hcategory, ofByteRange?_byteRange index category h, Cut.occurrence]

end Ranges

variable (catalog : Catalog)

theorem wordSpans_eq_flatten (index : Nat) (line : List Char) :
    wordSpans catalog index line = ((words line).map (wordSpan catalog index)).flatten := by
  rw [wordSpans, List.filterMap_eq_flatMap_toList, List.flatMap_def]
  rfl

theorem codeSpans?_eq (index : Nat) (line : List Char) :
    codeSpans? catalog index line = some (codeSpans catalog index line) := by
  have hwords : (byteRanges wordLength line).mapM (wordSpan? catalog index line) =
      some ((words line).map (wordSpan catalog index)) :=
    mapM_byteRanges fun _ _ h => wordSpan?_byteRange catalog index h
  have hnumbers :
      (byteRanges Numeral.lengthAt line).mapM (Span.ofByteRange? index .number line) =
        some ((numerals line).map (Span.ofOccurrence index .number)) :=
    mapM_byteRanges fun _ _ h => ofByteRange?_byteRange index .number h
  have hstrings :
      (byteRanges Quotation.lengthAt line).mapM (Span.ofByteRange? index .string line) =
        some ((quotations line).map (Span.ofOccurrence index .string)) :=
    mapM_byteRanges fun _ _ h => ofByteRange?_byteRange index .string h
  rw [codeSpans?, hwords, hnumbers, hstrings, codeSpans, wordSpans_eq_flatten]
  rfl

theorem lineSpans?_eq (index : Nat) (inside : Bool) (line : List Char) :
    lineSpans? catalog index inside line = some (lineSpans catalog index inside line) := by
  rw [lineSpans?, lineSpans, codeSpans?_eq]
  split <;> rfl

theorem collect?_eq (index : Nat) (inside : Bool) (ls : List (List Char)) :
    collect? catalog index inside ls = some (collect catalog index inside ls) := by
  induction ls generalizing index inside with
  | nil => rfl
  | cons line ls ih =>
      rw [collect?, lineSpans?_eq, ih, collect]
      rfl

/-- No byte offset falls inside a character and no range ends before it starts. -/
theorem classify?_eq (text : List Char) :
    classify? catalog text = some (classify catalog text) := by
  rw [classify?, collect?_eq, classify, Option.map_some]

end FoamDict.Highlight
