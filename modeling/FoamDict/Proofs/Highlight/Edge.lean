import FoamDict.Proofs.Highlight.Numeral

/-!
# Where numerals begin and end

A numeral has a word boundary at both ends. One that begins with a digit therefore stands behind no
word character. At its end the boundary asks for two different things: behind a digit, that no word
character follows, and behind a point, that one does. So a numeral is cut in two exactly where it
ends in a point.
-/

namespace FoamDict.Highlight

open FoamDict.Keyword (Catalog Sections)
open FoamDict.Text

namespace Numeral

variable {line behind : List Char} {c : Cut}

theorem fits_of_mem_cuts (h : c ∈ cuts lengthAt line) :
    pattern.Fits line c.places.1 c.places.2 := by
  rw [lengthAt_eq] at h
  exact (ordered_pattern.givesLongest not_nullable_pattern line).fits_of_mem_cuts h

theorem isDigit_or_isPoint_of_ends {d : Char} (h : pattern.ends d) : d.isDigit ∨ isPoint d := by
  simp only [pattern, sign, mantissa, exponent, digitRun, Pattern.optional, Pattern.ends,
    Pattern.nullable] at h
  grind

theorem getLast_isDigit_or_eq_point (h : c ∈ cuts lengthAt line) {d : Char}
    (hd : c.text.getLast? = some d) : d.isDigit ∨ d = '.' := by
  obtain ⟨behind, hon⟩ := isOn_of_mem_cuts h
  have hmem := (fits_of_mem_cuts h).mem
  rw [Cut.extract_places hon.line_eq] at hmem
  have hends := isDigit_or_isPoint_of_ends (Pattern.ends_of_mem_language hmem hd)
  exact hends.imp id of_decide_eq_true

section Boundaries

variable (h : c ∈ cuts lengthAt line) (hline : line = c.before ++ (c.text ++ behind))

include h hline

theorem isBoundary_start : isBoundary c.before.getLast? c.text.head? := by
  have hstart := (fits_of_mem_cuts h).boundary_start
  have hne := text_ne_nil_of_mem_cuts h
  rw [hline, Cut.places, boundaryAt_length, List.head?_append_of_ne_nil _ hne] at hstart
  exact hstart

theorem isBoundary_stop : isBoundary c.text.getLast? behind.head? := by
  have hstop := (fits_of_mem_cuts h).boundary_stop
  rw [hline, ← List.append_assoc, Cut.places, ← List.length_append, boundaryAt_length,
    List.getLast?_append_of_ne_nil _ (text_ne_nil_of_mem_cuts h)] at hstop
  exact hstop

/-- A numeral that begins with a digit stands behind no word character. -/
theorem before_of_head_isDigit (hdigit : c.text.head?.any Char.isDigit) :
    c.before.getLast?.any isWordChar = false := by
  obtain ⟨d, hd, hdigit⟩ := (Option.any_eq_true _ _).mp hdigit
  have hstart := isBoundary_start h hline
  rw [hd, isBoundary, Option.any_some, isWordChar_of_isDigit hdigit] at hstart
  simpa using hstart

/-- A word character follows a numeral exactly if the numeral ends in a point. -/
theorem behind_any_isWordChar_iff :
    behind.head?.any isWordChar ↔ c.text.getLast? = some '.' := by
  have hstop := isBoundary_stop h hline
  have hlast := List.getLast?_eq_some_getLast (text_ne_nil_of_mem_cuts h)
  have hpoint : isWordChar '.' = false := by decide
  rcases getLast_isDigit_or_eq_point h hlast with hdigit | heq
  · have hne : c.text.getLast (text_ne_nil_of_mem_cuts h) ≠ '.' := by
      intro heq
      rw [heq] at hdigit
      cases hdigit
    rw [hlast, isBoundary, Option.any_some, isWordChar_of_isDigit hdigit] at hstop
    rw [hlast, Option.some.injEq]
    exact iff_of_false (by simpa using hstop) hne
  · rw [hlast, heq, isBoundary, Option.any_some, hpoint] at hstop
    rw [hlast, heq]
    exact iff_of_true (by simpa using hstop) rfl

end Boundaries

end Numeral

/-- A number that begins with a digit stands behind no word character, and a word character follows
a number exactly if the number ends in a point. -/
theorem number_edges (sections : Sections) (text : List Char) :
    ∃ spans, classify? (Catalog.assemble sections) text = some spans ∧
      ∀ s ∈ spans, s.category = .number → ∃ line before numeral behind,
        (lines text)[s.line]? = some line ∧ s.Marks line before numeral behind ∧
          (numeral.head?.any Char.isDigit → before.getLast?.any isWordChar = false) ∧
          (behind.head?.any isWordChar ↔ numeral.getLast? = some '.') := by
  refine ⟨_, classify?_eq _ text, fun s hs hnumber => ?_⟩
  have hcomment : s.category ≠ .comment := by
    rw [hnumber]
    exact Category.noConfusion
  obtain ⟨line, c, behind, hget, hc, -, hmarks⟩ := exists_cut_of_mem_classify hs hcomment
  rw [hnumber] at hc
  exact ⟨line, c.before, c.text, behind, hget, hmarks,
    Numeral.before_of_head_isDigit hc hmarks.line_eq,
    Numeral.behind_any_isWordChar_iff hc hmarks.line_eq⟩

/-- A numeral that runs into a letter is cut behind its point, in front of its other digits. -/
theorem number_edges_in_front_of_digit :
    ∃ spans, classify? (Catalog.assemble {}) ['0', '.', '5', 'm'] = some spans ∧
      ⟨0, 0, 2, .number⟩ ∈ spans ∧ ∃ before behind,
        (⟨0, 0, 2, .number⟩ : Span).Marks ['0', '.', '5', 'm'] before ['0', '.'] behind ∧
          behind.head?.any isWordChar := by
  obtain ⟨spans, hspans, h⟩ := number_edges {} ['0', '.', '5', 'm']
  have hmem : ⟨0, 0, 2, .number⟩ ∈ spans := by
    rw [classify?_eq] at hspans
    rw [← Option.some.inj hspans]
    exact List.mem_mergeSort.mpr (by decide)
  obtain ⟨line, before, numeral, behind, hget, hmarks, -, hbehind⟩ := h _ hmem rfl
  obtain rfl : ['0', '.', '5', 'm'] = line := Option.some.inj hget
  obtain rfl : ['0', '.'] = numeral := by
    have hcut := ofUtf16?_take_drop_utf16 before numeral behind
    rw [← hmarks.line_eq, ← hmarks.start_eq, ← hmarks.length_eq] at hcut
    exact Option.some.inj hcut
  exact ⟨spans, hspans, hmem, before, behind, hmarks, hbehind.mpr rfl⟩

end FoamDict.Highlight
