import FoamDict.Keyword.Offsets
import FoamDict.Proofs.Keyword.Agreement
import FoamDict.Proofs.Text.Name

/-!
# Hover finds the word under the cursor

The ranges that the search for names takes have their columns and their characters, so hover over
byte offsets always has an answer, and it is the one that counting in columns gives. It is the
documentation of the one longest run of word characters that the column touches and that does not
start with a digit, for the extent of that run.
-/

namespace FoamDict.Keyword

open FoamDict.Text

section Offsets

variable {line behind : List Char} {c : Cut}

theorem columnSpan?_byteRange (h : line = c.before ++ (c.text ++ behind)) :
    columnSpan? line c.byteRange.first c.byteRange.last = some (c.column, units c.text) := by
  rw [Cut.byteRange, h, columnSpan?_bytes]
  rfl

theorem touched?_byteRange_cons (h : line = c.before ++ (c.text ++ behind)) (column : Nat)
    (rest : List ByteRange) :
    touched? line column (c.byteRange :: rest) =
      if c.Touches column then some (some c.byteRange) else touched? line column rest := by
  have htest : (c.column ≤ column && column ≤ c.column + units c.text) =
      decide (c.Touches column) := (Bool.decide_and _ _).symm
  have hif : touched? line column (c.byteRange :: rest) =
      if c.column ≤ column && column ≤ c.column + units c.text then some (some c.byteRange)
      else touched? line column rest := by
    rw [touched?, columnSpan?_byteRange h]
    rfl
  rw [hif, htest]
  simp only [decide_eq_true_eq]

theorem touched?_map_byteRange {cs : List Cut} (column : Nat)
    (h : ∀ c ∈ cs, ∃ behind, line = c.before ++ (c.text ++ behind)) :
    touched? line column (cs.map Cut.byteRange) =
      some ((cs.find? (·.Touches column)).map Cut.byteRange) := by
  induction cs with
  | nil => rfl
  | cons c cs ih =>
      obtain ⟨behind, hline⟩ := h c List.mem_cons_self
      rw [List.map_cons, touched?_byteRange_cons hline]
      by_cases htouches : c.Touches column
      · rw [if_pos htouches, List.find?_cons_of_pos (by simpa using htouches)]
        rfl
      · rw [if_neg htouches, List.find?_cons_of_neg (by simpa using htouches)]
        exact ih fun d hd => h d (List.mem_cons_of_mem c hd)

variable (catalog : Catalog) (index column : Nat)

/-- What is shown for the name that a cut takes. -/
def Catalog.shown (c : Cut) : Option Hover :=
  (catalog.documentation? (String.ofList c.text)).map fun text =>
    ⟨⟨index, c.column, c.column + units c.text⟩,
      Documentation.markdown ⟨String.ofList c.text, text⟩⟩

theorem showRange?_byteRange (h : line = c.before ++ (c.text ++ behind)) :
    catalog.showRange? line index c.byteRange = some (catalog.shown index c) := by
  have hslice : slice? line c.byteRange = some c.text := by
    rw [Cut.byteRange, h, slice?_bytes]
  rw [Catalog.showRange?, columnSpan?_byteRange h, hslice]
  rfl

theorem nameAt?_eq_map_find? (line : List Char) :
    nameAt? line column =
      ((cuts nameLength line).find? (·.Touches column)).map Cut.occurrence := by
  have htest : (fun o : Occurrence => (o.start ≤ column && column ≤ o.stop : Bool)) ∘
      Cut.occurrence = fun c => decide (c.Touches column) :=
    funext fun c => (Bool.decide_and _ _).symm
  rw [nameAt?, names_eq_map_cuts, List.find?_map, htest]

/-- Hover over byte offsets has the answer of hover. -/
theorem tryHoverLine_eq (line : List Char) :
    catalog.tryHoverLine line index column = some (catalog.hoverLine? line index column) := by
  have hcuts : ∀ c ∈ cuts nameLength line, ∃ behind, line = c.before ++ (c.text ++ behind) := by
    intro c hc
    obtain ⟨behind, hon⟩ := isOn_of_mem_cuts hc
    exact ⟨behind, hon.line_eq⟩
  rw [Catalog.tryHoverLine, byteRanges_eq_map_cuts, touched?_map_byteRange column hcuts]
  have hname := nameAt?_eq_map_find? column line
  cases hfind : (cuts nameLength line).find? (·.Touches column) with
  | none =>
      rw [hfind] at hname
      rw [Catalog.hoverLine?, hname]
      rfl
  | some c =>
      rw [hfind] at hname
      obtain ⟨behind, hline⟩ := hcuts c (List.mem_of_find?_eq_some hfind)
      rw [Catalog.hoverLine?_of_nameAt? hname]
      exact showRange?_byteRange catalog index hline

theorem tryHover_eq (text : List Char) :
    catalog.tryHover text index column = some (catalog.hover? text index column) := by
  rw [Catalog.tryHover, Catalog.hover?]
  cases (lines text)[index]? with
  | none => rfl
  | some line => exact tryHoverLine_eq catalog index column line

end Offsets

variable {catalog : Catalog} {line : List Char} {index column : Nat}

theorem nameAt?_eq_some_iff {name : Occurrence} :
    nameAt? line column = some name ↔
      ∃ c, IsName line c ∧ c.Touches column ∧ c.occurrence = name := by
  constructor
  · intro h
    rw [nameAt?_eq_map_find?] at h
    obtain ⟨c, hfind, rfl⟩ := Option.map_eq_some_iff.mp h
    have htouches := List.find?_some hfind
    exact ⟨c, mem_cuts_nameLength_iff.mp (List.mem_of_find?_eq_some hfind),
      of_decide_eq_true htouches, rfl⟩
  · rintro ⟨c, hname, htouches, rfl⟩
    refine nameAt?_eq_some ?_ htouches.1 htouches.2
    rw [names_eq_map_cuts]
    exact List.mem_map_of_mem (mem_cuts_nameLength_iff.mpr hname)

theorem hoverLine?_eq_some_iff {h : Hover} :
    catalog.hoverLine? line index column = some h ↔
      ∃ c text, IsName line c ∧ c.Touches column ∧
        catalog.documentation? (String.ofList c.text) = some text ∧
        h = ⟨⟨index, c.column, c.column + units c.text⟩,
          "**" ++ String.ofList c.text ++ "**\n\n" ++ text⟩ := by
  constructor
  · intro hhover
    cases hname : nameAt? line column with
    | none =>
        rw [Catalog.hoverLine?, hname] at hhover
        cases hhover
    | some name =>
        rw [Catalog.hoverLine?_of_nameAt? hname] at hhover
        obtain ⟨text, htext, rfl⟩ := Option.map_eq_some_iff.mp hhover
        obtain ⟨c, hc, htouches, rfl⟩ := nameAt?_eq_some_iff.mp hname
        exact ⟨c, text, hc, htouches, htext, rfl⟩
  · rintro ⟨c, text, hc, htouches, htext, rfl⟩
    have hname := nameAt?_eq_some_iff.mpr ⟨c, hc, htouches, rfl⟩
    rw [Catalog.hoverLine?_of_nameAt? hname, Option.map_eq_some_iff]
    exact ⟨text, htext, rfl⟩

theorem IsName.stop_le {c : Cut} (h : IsName line c) : c.column + units c.text ≤ units line := by
  obtain ⟨⟨behind, hrun⟩, -⟩ := h
  rw [hrun.line_eq, units_append, units_append, Cut.column, ← Nat.add_assoc]
  exact Nat.le_add_right _ _

/-- The pattern of names matches the longest runs of word characters that do not start with a digit.
A column touches one of them at most. Over byte offsets hover has an answer; it shows something
exactly if there is such a run and its text is documented, and then the documentation for the extent
of the run, around the column and within the line. In a document it is that of the line with the
number, and nothing behind the last line. -/
theorem hover_finds_run (catalog : Catalog) (index column : Nat) :
    (∀ (line : List Char),
      (∀ c, c ∈ cuts namePattern.lengthAt line ↔ IsName line c) ∧
      (∀ c c', IsName line c → IsName line c' → c.Touches column → c'.Touches column → c = c') ∧
      catalog.tryHoverLine line index column = some (catalog.hoverLine? line index column) ∧
      (∀ h, catalog.hoverLine? line index column = some h ↔
        ∃ c text, IsName line c ∧ c.Touches column ∧
          catalog.documentation? (String.ofList c.text) = some text ∧
          h = ⟨⟨index, c.column, c.column + units c.text⟩,
            "**" ++ String.ofList c.text ++ "**\n\n" ++ text⟩) ∧
      ∀ h, catalog.hoverLine? line index column = some h →
        h.extent.start ≤ column ∧ column ≤ h.extent.stop ∧ h.extent.stop ≤ units line) ∧
    ∀ text : List Char,
      catalog.tryHover text index column = some (catalog.hover? text index column) ∧
      (∀ line, (lines text)[index]? = some line →
        catalog.hover? text index column = catalog.hoverLine? line index column) ∧
      ((lines text).length ≤ index → catalog.hover? text index column = none) := by
  refine ⟨fun line => ⟨fun c => ?_, fun c c' h h' => h.eq_of_touches h', ?_, ?_, ?_⟩,
    fun text => ⟨tryHover_eq catalog index column text, fun line hline => ?_, fun hlength => ?_⟩⟩
  · rw [lengthAt_namePattern]
    exact mem_cuts_nameLength_iff
  · exact tryHoverLine_eq catalog index column line
  · exact fun h => hoverLine?_eq_some_iff
  · intro h hhover
    obtain ⟨c, text, hname, htouches, -, rfl⟩ := hoverLine?_eq_some_iff.mp hhover
    exact ⟨htouches.1, htouches.2, IsName.stop_le hname⟩
  · rw [Catalog.hover?, hline]
    rfl
  · rw [Catalog.hover?, List.getElem?_eq_none hlength]
    rfl

/-- On the second line, between a word that starts with a digit and a character of two units. -/
theorem hover_finds_run_after_astral :
    IsName ['1', 'e', ' ', '𝑥', 'n', 'u'] ⟨['1', 'e', ' ', '𝑥'], ['n', 'u']⟩ ∧
      (⟨['1', 'e', ' ', '𝑥'], ['n', 'u']⟩ : Cut).Touches 7 ∧
      Catalog.hover? ⟨[], [⟨"nu", "Viscosity."⟩]⟩ ['\r', '\n', '1', 'e', ' ', '𝑥', 'n', 'u'] 1 7 =
        some ⟨⟨1, 5, 7⟩, "**nu**\n\nViscosity."⟩ := by
  have hname : IsName ['1', 'e', ' ', '𝑥', 'n', 'u'] ⟨['1', 'e', ' ', '𝑥'], ['n', 'u']⟩ :=
    mem_cuts_nameLength_iff.mp (by decide)
  have htouches : (⟨['1', 'e', ' ', '𝑥'], ['n', 'u']⟩ : Cut).Touches 7 := by decide
  have hline : (lines ['\r', '\n', '1', 'e', ' ', '𝑥', 'n', 'u'])[1]? =
      some ['1', 'e', ' ', '𝑥', 'n', 'u'] := by decide
  obtain ⟨hlines, htexts⟩ := hover_finds_run ⟨[], [⟨"nu", "Viscosity."⟩]⟩ 1 7
  obtain ⟨-, -, -, hiff, -⟩ := hlines ['1', 'e', ' ', '𝑥', 'n', 'u']
  have hhover := (hiff ⟨⟨1, 5, 7⟩, "**nu**\n\nViscosity."⟩).mpr
    ⟨_, "Viscosity.", hname, htouches, by decide, by decide⟩
  exact ⟨hname, htouches, ((htexts _).2.1 _ hline).trans hhover⟩

end FoamDict.Keyword
