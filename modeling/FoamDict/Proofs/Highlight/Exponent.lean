import FoamDict.Keyword.Builtin
import FoamDict.Proofs.Highlight.Nesting

/-!
# Keywords keep clear of numerals

A word that overlaps a numeral lies in it. Of the characters of a numeral only digits and exponent
marks belong to words, and a numeral has at most one exponent mark. So a word inside a numeral holds
a digit or is the exponent mark alone, and identifiers of neither kind stand apart from all numbers.
-/

namespace FoamDict.Keyword

/-- No listed identifier holds a digit, and none is an exponent mark. -/
def Catalog.ClearOfNumerals (catalog : Catalog) : Prop :=
  ∀ identifier category, catalog.category? identifier = some category →
    (∀ c ∈ identifier.toList, ¬ c.isDigit) ∧ identifier ≠ "e" ∧ identifier ≠ "E"

def Sections.clearOfNumerals (s : Sections) : Bool :=
  s.listed.all fun (identifier, _) =>
    !identifier.toList.any Char.isDigit && identifier ≠ "e" && identifier ≠ "E"

theorem Catalog.clearOfNumerals_assemble {sections : Sections} (h : sections.clearOfNumerals) :
    (assemble sections).ClearOfNumerals := by
  intro identifier category hcategory
  have hclear := List.all_eq_true.mp h _ (mem_listed_of_category? hcategory)
  simpa [and_assoc] using hclear

theorem Catalog.clearOfNumerals_builtin : builtin.ClearOfNumerals :=
  clearOfNumerals_assemble (by decide)

end FoamDict.Keyword

namespace FoamDict.Highlight

open FoamDict.Keyword (Catalog Sections)
open FoamDict.Text

namespace Numeral

theorem countP_isExponentMark_eq_zero {p : Pattern} (hsmall : ¬ p.uses 'e') (hlarge : ¬ p.uses 'E')
    {cs : List Char} (hcs : cs ∈ p.language) : cs.countP isExponentMark = 0 := by
  refine List.countP_eq_zero.mpr fun c hc hmark => ?_
  have huses := Pattern.uses_of_mem_language hcs hc
  rcases of_decide_eq_true hmark with rfl | rfl
  · exact hsmall huses
  · exact hlarge huses

theorem countP_isExponentMark_le_one {cs : List Char} (h : cs ∈ pattern.language) :
    cs.countP isExponentMark ≤ 1 := by
  obtain ⟨u, hu, _, hvw, rfl⟩ := Language.mem_mul.mp h
  obtain ⟨v, hv, w, hw, rfl⟩ := Language.mem_mul.mp hvw
  have hsign := countP_isExponentMark_eq_zero (by decide) (by decide) hu
  have hmantissa := countP_isExponentMark_eq_zero (by decide) (by decide) hv
  rw [List.countP_append, List.countP_append, hsign, hmantissa, Nat.zero_add, Nat.zero_add]
  -- Only the exponent uses the mark, in front of its sign and its digits.
  rcases hw with ⟨x, ⟨c, -, rfl⟩, y, hy, rfl⟩ | hw
  · have hdigits : y.countP isExponentMark = 0 :=
      countP_isExponentMark_eq_zero (p := .seq sign digitRun) (by decide) (by decide) hy
    rw [List.countP_append, hdigits, Nat.add_zero]
    exact List.countP_le_length
  · rw [(Language.mem_one w).mp hw]
    exact Nat.zero_le _

variable {line : List Char} {c d : Cut}

theorem isDigit_or_isExponentMark {x : Char} (hpart : isPart x) (hword : isWordChar x) :
    x.isDigit ∨ isExponentMark x := by
  rw [isPart, Bool.or_eq_true, List.contains_iff_mem] at hpart
  refine hpart.imp_right fun hother => ?_
  simp only [List.mem_cons, List.not_mem_nil, or_false] at hother
  rcases hother with rfl | rfl | rfl | rfl | rfl
  · exact absurd hword (by decide)
  · exact absurd hword (by decide)
  · exact absurd hword (by decide)
  · rfl
  · rfl

/-- A word without digits inside a numeral is the exponent mark of the numeral. -/
theorem text_eq_mark_of_within (hc : c ∈ cuts wordLength line) (hd : d ∈ cuts lengthAt line)
    (h : Within c.places d.places) (hdigits : ∀ x ∈ c.text, ¬ x.isDigit) :
    c.text = ['e'] ∨ c.text = ['E'] := by
  have hsub := sublist_of_within hc hd h
  have hmarks : ∀ x ∈ c.text, isExponentMark x := fun x hx =>
    (isDigit_or_isExponentMark (isPart_of_mem_cut hd x (hsub.subset hx))
      (isWordChar_of_mem_cut hc x hx)).resolve_left (hdigits x hx)
  have hlength : c.text.length ≤ 1 := by
    obtain ⟨_, hon⟩ := isOn_of_mem_cuts hd
    have hmem := (fits_of_mem_cuts hd).mem
    rw [Cut.extract_places hon.line_eq] at hmem
    rw [← List.countP_eq_length.mpr hmarks]
    exact hsub.countP_le.trans (countP_isExponentMark_le_one hmem)
  have hpos := List.length_pos_iff.mpr (text_ne_nil_of_mem_cuts hc)
  obtain ⟨x, hx⟩ := List.length_eq_one_iff.mp (hlength.antisymm hpos)
  have hmark : x = 'e' ∨ x = 'E' := of_decide_eq_true (hmarks x (hx ▸ List.mem_singleton_self x))
  rw [hx]
  exact hmark.imp (congrArg ([·])) (congrArg ([·]))

end Numeral

theorem word_of_found {catalog : Catalog} {line : List Char} {category : Category} {c : Cut}
    (h : Found catalog line category c)
    (hword : category ∈ [Category.dictionary, .list, .lvalue, .rvalue]) :
    c ∈ cuts wordLength line ∧ catalog.category? (String.ofList c.text) = some category := by
  cases h with
  | word hc hcategory => exact ⟨hc, hcategory⟩
  | numeral _ => exact absurd hword (by decide)
  | quotation _ => exact absurd hword (by decide)

theorem apart_word_numeral {catalog : Catalog} (hclear : catalog.ClearOfNumerals)
    {line : List Char} {category : Category} {c d : Cut} (hc : c ∈ cuts wordLength line)
    (hcategory : catalog.category? (String.ofList c.text) = some category)
    (hd : d ∈ cuts Numeral.lengthAt line) : Apart c.places d.places := by
  have hfits := Numeral.fits_of_mem_cuts hd
  obtain ⟨hdigits, hsmall, hlarge⟩ := hclear _ _ hcategory
  rw [String.toList_ofList] at hdigits
  rcases apart_or_within_of_boundaries hc hfits.boundary_start hfits.boundary_stop with h | h
  · exact h
  · rcases Numeral.text_eq_mark_of_within hc hd h hdigits with htext | htext
    · exact absurd (congrArg String.ofList htext) hsmall
    · exact absurd (congrArg String.ofList htext) hlarge

/-- A keyword that holds no digit and is no exponent mark shares no column with a number. -/
theorem keywords_apart_from_numbers :
    Catalog.builtin.ClearOfNumerals ∧
    ∀ (sections : Sections) (text : List Char), (Catalog.assemble sections).ClearOfNumerals →
      ∃ spans, classify? (Catalog.assemble sections) text = some spans ∧
        ∀ a ∈ spans, ∀ b ∈ spans, a.line = b.line →
          a.category ∈ [Category.dictionary, .list, .lvalue, .rvalue] → b.category = .number →
          Apart a.columns b.columns := by
  refine ⟨Catalog.clearOfNumerals_builtin, fun sections text hclear => ⟨_, classify?_eq _ text,
    fun a ha b hb hline hword hnumber => ?_⟩⟩
  have hne : a ≠ b := by
    rintro rfl
    rw [hnumber] at hword
    exact absurd hword (by decide)
  obtain ⟨line, c, d, hfound, hfound', hspan, hspan'⟩ :=
    exists_found_two_of_mem_classify ha hb hline hne
  obtain ⟨hc, hcategory⟩ := word_of_found hfound hword
  have hd := hfound'.mem_cuts
  rw [hnumber] at hd
  have hcolumns := (apart_word_numeral hclear hc hcategory hd).columns line
  rw [← columns_ofOccurrence hc a.line a.category, ← hspan,
    ← columns_ofOccurrence hd b.line b.category, ← hspan'] at hcolumns
  exact hcolumns

/-- A keyword around an exponent mark stands beside the number that the mark belongs to. -/
theorem keywords_apart_from_numbers_around_mark :
    (Catalog.assemble { lvalue := ["ex"] }).ClearOfNumerals ∧
    ∃ spans, classify? (Catalog.assemble { lvalue := ["ex"] })
        ['1', '.', 'e', 'x', ' ', '1', '.', 'e', '+', '5'] = some spans ∧
      Apart (2, 4) (0, 2) ∧ Apart (2, 4) (5, 10) := by
  have hclear : (Catalog.assemble { lvalue := ["ex"] }).ClearOfNumerals :=
    Catalog.clearOfNumerals_assemble (by decide)
  obtain ⟨spans, hspans, h⟩ := keywords_apart_from_numbers.2 { lvalue := ["ex"] }
    ['1', '.', 'e', 'x', ' ', '1', '.', 'e', '+', '5'] hclear
  have hclassify := Option.some.inj ((classify?_eq _ _).symm.trans hspans)
  have hword : ⟨0, 2, 2, .lvalue⟩ ∈ spans := hclassify ▸ List.mem_mergeSort.mpr (by decide)
  have hfirst : ⟨0, 0, 2, .number⟩ ∈ spans := hclassify ▸ List.mem_mergeSort.mpr (by decide)
  have hsecond : ⟨0, 5, 5, .number⟩ ∈ spans := hclassify ▸ List.mem_mergeSort.mpr (by decide)
  exact ⟨hclear, spans, hspans, h _ hword _ hfirst rfl (by decide) rfl,
    h _ hword _ hsecond rfl (by decide) rfl⟩

end FoamDict.Highlight
