import Mathlib.Data.List.TakeWhile
import FoamDict.Proofs.Text.Scan
import FoamDict.Text.Word

/-!
# Words stand apart

A word is taken only where no word character stands before it, so one character at least lies
between the end of a word and the start of the next. A column that touches a word, its end included,
touches no other one.
-/

namespace FoamDict.Text

theorem isWordChar_of_mem_cut {line : List Char} {c : Cut} (h : c ∈ cuts wordLength line) :
    ∀ d ∈ c.text, isWordChar d := by
  obtain ⟨behind, hon⟩ := isOn_of_mem_cuts h
  intro d hd
  rw [hon.text_eq, wordLength] at hd
  split at hd
  · rw [List.take_zero] at hd
    cases hd
  · rw [← List.prefix_iff_eq_take.mp (List.takeWhile_prefix isWordChar)] at hd
    exact List.mem_takeWhile_imp hd

/-- No word character stands right before a word. -/
theorem before_of_mem_cut {line : List Char} {c : Cut} (h : c ∈ cuts wordLength line) :
    c.before.getLast?.any isWordChar = false := by
  obtain ⟨_, hon⟩ := isOn_of_mem_cuts h
  have hlength := hon.length_ne_zero
  rw [wordLength] at hlength
  split at hlength
  · exact absurd rfl hlength
  · rename_i hbefore
    exact Bool.not_eq_true _ ▸ hbefore

theorem pairwise_words (line : List Char) :
    (words line).Pairwise fun a b => a.stop < b.start := by
  rw [words, occurrences_eq_map_cuts, List.pairwise_map]
  refine (pairwise_cuts line).imp_of_mem fun {a b} ha hb hprefix => ?_
  obtain ⟨_, hon⟩ := isOn_of_mem_cuts ha
  obtain ⟨between, hbetween⟩ := hprefix
  have hne : between ≠ [] := by
    rintro rfl
    -- The last character of the first word would stand right before the second.
    have hword := isWordChar_of_mem_cut ha _ (List.getLast_mem hon.text_ne_nil)
    have hbefore := before_of_mem_cut hb
    rw [← hbetween, List.append_nil, List.getLast?_append_of_ne_nil _ hon.text_ne_nil,
      List.getLast?_eq_some_getLast hon.text_ne_nil, Option.any_some, hword] at hbefore
    cases hbefore
  have hpos := units_pos hne
  have hunits := congrArg units hbetween
  rw [units_append, units_append] at hunits
  simp only [Occurrence.stop, Occurrence.width, Cut.occurrence, Cut.column]
  omega

end FoamDict.Text
