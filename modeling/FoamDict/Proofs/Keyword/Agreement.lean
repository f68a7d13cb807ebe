import FoamDict.Proofs.Highlight.Source
import FoamDict.Proofs.Keyword.Catalog
import FoamDict.Proofs.Keyword.Lookup

/-!
# Highlighting, hover and suggestions agree

A highlighted word of the catalog that starts with no digit is the name that hover finds from every
column that touches it, and what hover shows for it is what the one suggestion of that label shows.
What is shown starts with the identifier between stars. So among the suggestions whose labels are
words no two show the same; a label with stars of its own may show what a word does.
-/

namespace FoamDict.Keyword

open FoamDict.Highlight (Category Comment.covers Found Span classify exists_found_of_mem_classify)
open FoamDict.Text

def isWord (identifier : String) : Bool := identifier.toList.all isWordChar

section Markdown

variable {d e : Documentation}

/-- Behind the two stars in front stands the identifier, up to the next star if it is a word. -/
theorem takeWhile_markdown (hd : isWord d.identifier) :
    (d.markdown.toList.drop 2).takeWhile isWordChar = d.identifier.toList := by
  have hlist : d.markdown.toList.drop 2 =
      d.identifier.toList ++ ('*' :: '*' :: '\n' :: '\n' :: d.text.toList) := by
    simp [Documentation.markdown]
  have hstar : isWordChar '*' = false := by decide
  rw [hlist, List.takeWhile_append_of_pos (List.all_eq_true.mp hd), List.takeWhile_cons, hstar,
    if_neg Bool.false_ne_true, List.append_nil]

theorem markdown_injective (hd : isWord d.identifier) (he : isWord e.identifier)
    (h : d.markdown = e.markdown) : d = e := by
  have hidentifier : d.identifier = e.identifier := by
    rw [← String.toList_inj, ← takeWhile_markdown hd, ← takeWhile_markdown he, h]
  have htext : d.text = e.text := by
    rw [Documentation.markdown, Documentation.markdown, hidentifier] at h
    exact (String.append_right_inj _).mp h
  cases d
  cases e
  exact congrArg₂ _ hidentifier htext

end Markdown

namespace Catalog

variable {catalog : Catalog} {line : List Char} {index column : Nat}

/-- The suggestions that show a text, of those whose labels are words. -/
def wordSuggestions (catalog : Catalog) (shown : String) : List Suggestion :=
  catalog.suggestions.filter fun s => isWord s.label && s.documentation = shown

theorem filter_suggestions_eq_singleton {p : Suggestion → Bool} {d : Documentation}
    (hnodup : (catalog.documented.map (·.identifier)).Nodup) (hd : d ∈ catalog.documented)
    (hp : ∀ e ∈ catalog.documented, p (.ofDocumentation e) ↔ e = d) :
    catalog.suggestions.filter p = [.ofDocumentation d] := by
  have hsame : ∀ e ∈ catalog.documented, (p ∘ .ofDocumentation) e = (e == d) := by
    intro e he
    rw [Bool.eq_iff_iff, beq_iff_eq]
    exact hp e he
  rw [suggestions, List.filter_map, List.filter_congr hsame, List.filter_beq,
    List.count_eq_one_of_mem hnodup.of_map hd]
  rfl

theorem filter_label_eq_singleton {d : Documentation}
    (hnodup : (catalog.documented.map (·.identifier)).Nodup) (hd : d ∈ catalog.documented) :
    catalog.suggestions.filter (·.label = d.identifier) = [.ofDocumentation d] := by
  refine filter_suggestions_eq_singleton hnodup hd fun e he => ?_
  rw [decide_eq_true_eq]
  constructor
  · exact List.inj_on_of_nodup_map hnodup he hd
  · rintro rfl
    rfl

theorem wordSuggestions_eq_singleton {d : Documentation}
    (hnodup : (catalog.documented.map (·.identifier)).Nodup) (hd : d ∈ catalog.documented)
    (hword : isWord d.identifier) :
    catalog.wordSuggestions d.markdown = [.ofDocumentation d] := by
  refine filter_suggestions_eq_singleton hnodup hd fun e _ => ?_
  rw [Bool.and_eq_true, decide_eq_true_eq]
  constructor
  · rintro ⟨he, hshown⟩
    exact markdown_injective he hword hshown
  · rintro rfl
    exact ⟨hword, rfl⟩

theorem hoverLine?_of_nameAt? {name : Occurrence} (h : nameAt? line column = some name) :
    catalog.hoverLine? line index column =
      (catalog.documentation? (String.ofList name.text)).map fun text =>
        ⟨⟨index, name.start, name.stop⟩,
          Documentation.markdown ⟨String.ofList name.text, text⟩⟩ := by
  simp only [hoverLine?, h, Option.bind_eq_bind, Option.bind_some, Option.map_eq_bind]
  rfl

/-- What hover shows is documented for a word. -/
theorem exists_documentation_of_hoverLine? {h : Hover}
    (hhover : catalog.hoverLine? line index column = some h) :
    ∃ d ∈ catalog.documented, isWord d.identifier ∧ h.contents = d.markdown := by
  cases hname : nameAt? line column with
  | none =>
      rw [hoverLine?, hname] at hhover
      cases hhover
  | some name =>
      rw [hoverLine?_of_nameAt? hname] at hhover
      obtain ⟨text, htext, rfl⟩ := Option.map_eq_some_iff.mp hhover
      obtain ⟨c, hc, rfl⟩ := exists_cut_of_nameAt? hname
      refine ⟨_, mem_documented_of_documentation? htext, ?_, rfl⟩
      rw [isWord, String.toList_ofList, List.all_eq_true]
      exact isWordChar_of_mem_cut hc

/-- At the column, hover answers exactly if the word is documented, and then with the extent and
with what is suggested under the word. -/
structure ShowsWord (catalog : Catalog) (line : List Char) (column : Nat) (extent : Extent)
    (word : String) : Prop where
  isSome_iff : (catalog.hoverLine? line extent.line column).isSome ↔
    (catalog.documentation? word).isSome
  shown : ∀ h, catalog.hoverLine? line extent.line column = some h → h.extent = extent ∧
    ∃ suggestion, catalog.suggestions.filter (·.label = word) = [suggestion] ∧
      h.contents = suggestion.documentation

theorem showsWord_of_name {name : Occurrence}
    (hnodup : (catalog.documented.map (·.identifier)).Nodup) (hname : name ∈ names line)
    (hstart : name.start ≤ column) (hstop : column ≤ name.stop) :
    ShowsWord catalog line column ⟨index, name.start, name.stop⟩ (String.ofList name.text) := by
  have hnameAt := nameAt?_eq_some hname hstart hstop
  refine ⟨?_, fun h hh => ?_⟩
  · rw [hoverLine?_of_nameAt? hnameAt, Option.isSome_map]
  · rw [hoverLine?_of_nameAt? hnameAt] at hh
    obtain ⟨text, htext, rfl⟩ := Option.map_eq_some_iff.mp hh
    have hd := mem_documented_of_documentation? htext
    exact ⟨rfl, _, filter_label_eq_singleton hnodup hd, rfl⟩

end Catalog

theorem mem_words_of_found {catalog : Catalog} {line : List Char} {category : Category} {c : Cut}
    (h : Found catalog line category c)
    (hcategory : category ∈ [Category.dictionary, .list, .lvalue, .rvalue]) :
    c.occurrence ∈ words line := by
  cases h with
  | word hc _ =>
      rw [words, occurrences_eq_map_cuts]
      exact List.mem_map_of_mem hc
  | numeral _ => simp at hcategory
  | quotation _ => simp at hcategory

/-- Hover shows a highlighted word of the catalog from every column that touches it, unless the word
starts with a digit, and shows nothing that is not what exactly one suggestion under a word
shows. -/
theorem hover_agrees {sections : Sections} {catalog : Catalog}
    (hcatalog : Catalog.ofSections sections = .ok catalog) :
    (∀ (text line word : List Char), ∀ s ∈ classify catalog text,
      s.category ∈ [Category.dictionary, .list, .lvalue, .rvalue] →
      (lines text)[s.line]? = some line →
      ofUtf16? (((utf16 line).drop s.start).take s.length) = some word →
      word.head?.any Char.isDigit = false →
      ∀ column, s.start ≤ column → column ≤ s.start + s.length →
        catalog.ShowsWord line column ⟨s.line, s.start, s.start + s.length⟩
          (String.ofList word)) ∧
    ∀ line index column h, catalog.hoverLine? line index column = some h →
      ∃ suggestion, catalog.wordSuggestions h.contents = [suggestion] := by
  have hnodup := Catalog.nodup_identifiers hcatalog
  refine ⟨fun text line word s hs hcategory hline hword hdigit column hstart hstop => ?_,
    fun line index column h hhover => ?_⟩
  · have hcomment : s.category ≠ .comment := by
      intro heq
      simp [heq] at hcategory
    obtain ⟨line', c, hline', hfound, hspan⟩ := exists_found_of_mem_classify hs hcomment
    obtain rfl : line' = line := Option.some.inj (hline'.symm.trans hline)
    have hstands := hfound.standsFor s.line
    rw [← hspan] at hstands
    obtain rfl : c.text = word := Option.some.inj (hstands.units_eq.symm.trans hword)
    have hname : c.occurrence ∈ names line' :=
      List.mem_filter.mpr ⟨mem_words_of_found hfound hcategory, (Bool.not_eq_true' _).mpr hdigit⟩
    have hextent : s.start = c.occurrence.start ∧ s.length = c.occurrence.width := by
      rw [hspan]
      exact ⟨rfl, rfl⟩
    rw [hextent.1, hextent.2] at hstop ⊢
    exact Catalog.showsWord_of_name hnodup hname (hextent.1 ▸ hstart) hstop
  · obtain ⟨d, hd, hword, hshown⟩ := Catalog.exists_documentation_of_hoverLine? hhover
    rw [hshown]
    exact ⟨_, Catalog.wordSuggestions_eq_singleton hnodup hd hword⟩

/-- A documented word behind a character that is no word character, with the cursor at its end. -/
theorem hover_agrees_at_end :
    (⟨[("nu", .lvalue)], [⟨"nu", "Viscosity."⟩]⟩ : Catalog).ShowsWord ['Θ', 'n', 'u'] 3 ⟨0, 1, 3⟩
        "nu" ∧
      ∃ suggestion, (⟨[("nu", .lvalue)], [⟨"nu", "Viscosity."⟩]⟩ : Catalog).wordSuggestions
        "**nu**\n\nViscosity." = [suggestion] := by
  have hcatalog : Catalog.ofSections ⟨[], [], ["nu"], [], [⟨"nu", "Viscosity."⟩]⟩ =
      .ok ⟨[("nu", .lvalue)], [⟨"nu", "Viscosity."⟩]⟩ := by decide
  have hspan : ⟨0, 1, 2, .lvalue⟩ ∈
      classify ⟨[("nu", .lvalue)], [⟨"nu", "Viscosity."⟩]⟩ ['Θ', 'n', 'u'] :=
    List.mem_mergeSort.mpr (by decide)
  have h := hover_agrees hcatalog
  exact ⟨h.1 ['Θ', 'n', 'u'] ['Θ', 'n', 'u'] ['n', 'u'] _ hspan (by decide) rfl (by decide)
    (by decide) 3 (by decide) (by decide), h.2 ['Θ', 'n', 'u'] 0 3 ⟨⟨0, 1, 3⟩, _⟩ (by decide)⟩

/-- A label with stars of its own shows what a word shows: on a line that is no comment, hover over
a word of the catalog then shows the text of two suggestions. -/
theorem hover_shown_by_two_suggestions : ∃ catalog,
    Catalog.ofSections { dictionary := ["a"], documentation := [⟨"a", "b**\n\nc"⟩,
      ⟨"a**\n\nb", "c"⟩] } = .ok catalog ∧
    Comment.covers false ['a'] = false ∧
    ⟨0, 0, 1, .dictionary⟩ ∈ classify catalog ['a'] ∧
    catalog.hoverLine? ['a'] 0 0 = some ⟨⟨0, 0, 1⟩, "**a**\n\nb**\n\nc"⟩ ∧
    ¬ ∃ suggestion, catalog.suggestions.filter (·.documentation = "**a**\n\nb**\n\nc") =
      [suggestion] := by
  refine ⟨⟨[("a", .dictionary)], [⟨"a", "b**\n\nc"⟩, ⟨"a**\n\nb", "c"⟩]⟩, by decide, by decide,
    List.mem_mergeSort.mpr (by decide), by decide, ?_⟩
  rintro ⟨suggestion, hone⟩
  have htwo : ((Catalog.suggestions ⟨[("a", .dictionary)], [⟨"a", "b**\n\nc"⟩,
      ⟨"a**\n\nb", "c"⟩]⟩).filter (·.documentation = "**a**\n\nb**\n\nc")).length = 2 := by
    decide
  rw [hone] at htwo
  cases htwo

end FoamDict.Keyword
