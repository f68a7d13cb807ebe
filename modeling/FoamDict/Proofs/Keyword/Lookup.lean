import FoamDict.Keyword.Lookup
import FoamDict.Proofs.Text.Word

/-!
# What hover finds

Hover answers with the documentation of the name under the cursor and with the extent of that name,
which is one of the words of the line. A name is found from every column that touches it.
-/

namespace FoamDict.Keyword

open FoamDict.Text

theorem hover?_eq_some_iff {catalog : Catalog} {text : List Char} {index column : Nat} {h : Hover} :
    catalog.hover? text index column = some h ↔
      ∃ line name documentation, (lines text)[index]? = some line ∧
        nameAt? line column = some name ∧
        catalog.documentation? (String.ofList name.text) = some documentation ∧
        h = ⟨⟨index, name.start, name.stop⟩,
          Documentation.markdown ⟨String.ofList name.text, documentation⟩⟩ := by
  simp only [Catalog.hover?, Catalog.hoverLine?, Option.bind_eq_bind, Option.bind_eq_some_iff,
    Option.some.injEq, eq_comm (b := h)]
  constructor
  · rintro ⟨line, hline, name, hname, documentation, hdocumentation, heq⟩
    exact ⟨line, name, documentation, hline, hname, hdocumentation, heq⟩
  · rintro ⟨line, name, documentation, hline, hname, hdocumentation, heq⟩
    exact ⟨line, hline, name, hname, documentation, hdocumentation, heq⟩

theorem exists_cut_of_nameAt? {line : List Char} {column : Nat} {name : Occurrence}
    (h : nameAt? line column = some name) : ∃ c ∈ cuts wordLength line, c.occurrence = name := by
  have hname : name ∈ names line := List.mem_of_find?_eq_some h
  exact exists_cut_of_mem_occurrences (List.mem_filter.mp hname).1

/-- No column touches two names, so the first one that is touched is the only one. -/
theorem nameAt?_eq_some {line : List Char} {column : Nat} {name : Occurrence}
    (hname : name ∈ names line) (hstart : name.start ≤ column) (hstop : column ≤ name.stop) :
    nameAt? line column = some name := by
  have hapart : (names line).Pairwise fun a b => a.stop < b.start := (pairwise_words line).filter _
  obtain ⟨before, behind, hsplit⟩ := List.append_of_mem hname
  rw [nameAt?, List.find?_eq_some_iff_append]
  refine ⟨by simp [hstart, hstop], before, behind, hsplit, fun other hother => ?_⟩
  rw [hsplit, List.pairwise_append] at hapart
  have hbefore := hapart.2.2 other hother name List.mem_cons_self
  simp only [Bool.not_eq_true', Bool.and_eq_false_iff, decide_eq_false_iff_not]
  omega

end FoamDict.Keyword
