import Mathlib.Data.List.Basic
import FoamDict.Highlight.Classify

/-!
# The order of spans

Sorting by line and start is stable, so the spans of earlier lines come before those of later ones
and the spans of a text split at any line. What the lines before a place hand on is only whether a
comment block is open there; the spans behind it depend on that and on the lines that follow, and
move with the number of their first line.
-/

namespace FoamDict.Highlight

open FoamDict.Keyword (Catalog)

section Sorting

variable {α : Type} {le : α → α → Bool}

theorem filter_append_of_test {test : α → Bool} {l m : List α} (hl : ∀ b ∈ l, test b = false)
    (hm : ∀ b ∈ m, test b = true) : (l ++ m).filter test = m := by
  have hnone : l.filter test = [] := List.filter_eq_nil_iff.mpr fun b hb => by simp [hl b hb]
  rw [List.filter_append, hnone, List.filter_eq_self.mpr hm, List.nil_append]

/-- A list splits in one way only into a part that fails a test and a part that passes it. -/
theorem append_inj_of_test {test : α → Bool} {l₁ l₂ m₁ m₂ : List α} (h : l₁ ++ l₂ = m₁ ++ m₂)
    (hl₁ : ∀ b ∈ l₁, test b = false) (hl₂ : ∀ b ∈ l₂, test b = true)
    (hm₁ : ∀ b ∈ m₁, test b = false) (hm₂ : ∀ b ∈ m₂, test b = true) : l₁ = m₁ ∧ l₂ = m₂ := by
  have htail : l₂ = m₂ := by
    rw [← filter_append_of_test hl₁ hl₂, h, filter_append_of_test hm₁ hm₂]
  subst htail
  exact ⟨List.append_cancel_right h, rfl⟩

/-- Where nothing in the second list has to go before anything in the first, a stable sort deals
with one after the other. -/
theorem mergeSort_append_of_forall_le (trans : ∀ a b c, le a b → le b c → le a c)
    (total : ∀ a b, le a b || le b a) {l m : List α} (h : ∀ a ∈ l, ∀ b ∈ m, le a b) :
    (l ++ m).mergeSort le = l.mergeSort le ++ m.mergeSort le := by
  induction l with
  | nil => simp
  | cons a l ih =>
      obtain ⟨x₁, x₂, hx, hrest, hx₁⟩ := List.mergeSort_cons trans total a (l ++ m)
      obtain ⟨y₁, y₂, hy, hrest', hy₁⟩ := List.mergeSort_cons trans total a l
      rw [ih fun b hb => h b (List.mem_cons_of_mem a hb), hrest', List.append_assoc] at hrest
      have hsorted := List.pairwise_mergeSort trans total (a :: (l ++ m))
      have hsorted' := List.pairwise_mergeSort trans total (a :: l)
      rw [hx] at hsorted
      rw [hy] at hsorted'
      -- Both sides put `a` right before everything that may not go before it.
      have hx₂ : ∀ b ∈ x₂, le a b := (List.pairwise_cons.mp (List.pairwise_append.mp hsorted).2.1).1
      have hy₂ : ∀ b ∈ y₂ ++ m.mergeSort le, le a b := by
        intro b hb
        rcases List.mem_append.mp hb with hb | hb
        · exact (List.pairwise_cons.mp (List.pairwise_append.mp hsorted').2.1).1 b hb
        · exact h a List.mem_cons_self b (List.mem_mergeSort.mp hb)
      obtain ⟨rfl, rfl⟩ := append_inj_of_test hrest.symm (by simpa using hx₁) hx₂
        (by simpa using hy₁) hy₂
      rw [List.cons_append, hx, hy, List.append_assoc, List.cons_append]

/-- A stable sort leaves alone what is in order. -/
theorem filter_mergeSort_of_pairwise (trans : ∀ a b c, le a b → le b c → le a c)
    (total : ∀ a b, le a b || le b a) {test : α → Bool} {l : List α}
    (h : (l.filter test).Pairwise (le · ·)) : (l.mergeSort le).filter test = l.filter test := by
  have hsub : ((l.filter test).filter test).Sublist ((l.mergeSort le).filter test) :=
    (List.sublist_mergeSort trans total h List.filter_sublist).filter test
  have hlength := ((List.mergeSort_perm l le).filter test).length_eq
  rw [List.filter_filter] at hsub
  simp only [Bool.and_self] at hsub
  exact (hsub.eq_of_length hlength.symm).symm

/-- It leaves alone what may stand in any order, too. -/
theorem filter_mergeSort (trans : ∀ a b c, le a b → le b c → le a c)
    (total : ∀ a b, le a b || le b a) {test : α → Bool}
    (h : ∀ a b, test a → test b → le a b) (l : List α) :
    (l.mergeSort le).filter test = l.filter test := by
  apply filter_mergeSort_of_pairwise trans total
  apply List.pairwise_of_forall_mem_list
  intro a ha b hb
  exact h a b (List.mem_filter.mp ha).2 (List.mem_filter.mp hb).2

/-- What holds of every two elements of a list that tie still holds of them when it is sorted. -/
theorem pairwise_mergeSort_of_tied (trans : ∀ a b c, le a b → le b c → le a c)
    (total : ∀ a b, le a b || le b a) {R : α → α → Prop} {l : List α}
    (h : l.Pairwise fun a b => le a b → le b a → R a b) :
    (l.mergeSort le).Pairwise fun a b => le a b → le b a → R a b := by
  refine List.pairwise_of_forall_sublist fun {a b} hab hle hge => ?_
  let tied : α → Bool := fun x => le a x && le x a
  have hrefl : le a a := by simpa using total a a
  have hfilter : (l.mergeSort le).filter tied = l.filter tied := by
    apply filter_mergeSort trans total
    intro x y hx hy
    exact trans x a y (Bool.and_eq_true_iff.mp hx).2 (Bool.and_eq_true_iff.mp hy).1
  have hpair : [a, b].filter tied = [a, b] := by simp [tied, hrefl, hle, hge]
  have hsub : [a, b].Sublist l := by
    have hsorted := hab.filter tied
    rw [hpair, hfilter] at hsorted
    exact hsorted.trans List.filter_sublist
  exact List.pairwise_iff_forall_sublist.mp h hsub hle hge

end Sorting

namespace Span

theorem notAfter_iff {a b : Span} :
    a.notAfter b ↔ a.line < b.line ∨ a.line = b.line ∧ a.start ≤ b.start := by
  simp [notAfter]

theorem notAfter_trans (a b c : Span) (hab : a.notAfter b) (hbc : b.notAfter c) :
    a.notAfter c := by
  rw [notAfter_iff] at *
  omega

theorem notAfter_total (a b : Span) : a.notAfter b || b.notAfter a := by
  rw [Bool.or_eq_true, notAfter_iff, notAfter_iff]
  omega

/-- The same span `count` lines further down. -/
def down (count : Nat) (s : Span) : Span := { s with line := s.line + count }

theorem notAfter_down (count : Nat) (a b : Span) :
    (a.down count).notAfter (b.down count) = a.notAfter b := by
  rw [Bool.eq_iff_iff, notAfter_iff, notAfter_iff]
  simp only [down]
  omega

end Span

/-- In order by line and start; spans at one place may stand either way. -/
def InOrder (spans : List Span) : Prop := spans.Pairwise fun a b => a.notAfter b

/-- Whether a comment block is open before line `index`. -/
def Comment.openBefore (ls : List (List Char)) (index : Nat) : Bool :=
  (ls.take index).foldl Comment.openAfter false

variable (catalog : Catalog)

theorem line_of_mem_lineSpans {index : Nat} {inside : Bool} {line : List Char} {s : Span}
    (h : s ∈ lineSpans catalog index inside line) : s.line = index := by
  have hs := List.mem_of_mem_filter h
  split at hs
  · rw [List.mem_singleton.mp hs]
    rfl
  · simp only [codeSpans, wordSpans, List.mem_append, List.mem_filterMap, List.mem_map] at hs
    rcases hs with (⟨word, _, hword⟩ | ⟨o, _, rfl⟩) | ⟨o, _, rfl⟩
    · obtain ⟨c, _, rfl⟩ := Option.map_eq_some_iff.mp hword
      rfl
    · rfl
    · rfl

theorem lineSpans_add (index count : Nat) (inside : Bool) (line : List Char) :
    lineSpans catalog (index + count) inside line =
      (lineSpans catalog index inside line).map (Span.down count) := by
  have hword : wordSpans catalog (index + count) line =
      (wordSpans catalog index line).map (Span.down count) := by
    simp only [wordSpans, List.map_filterMap, Option.map_map]
    rfl
  have hcode : codeSpans catalog (index + count) line =
      (codeSpans catalog index line).map (Span.down count) := by
    simp only [codeSpans, hword, List.map_append, List.map_map]
    rfl
  have hcomment : [commentSpan (index + count) line] =
      [commentSpan index line].map (Span.down count) := rfl
  rw [lineSpans, lineSpans]
  split
  · rw [hcomment, List.filter_map]
    rfl
  · rw [hcode, List.filter_map]
    rfl

theorem line_of_mem_collect {index : Nat} {inside : Bool} {ls : List (List Char)} {s : Span}
    (h : s ∈ collect catalog index inside ls) : index ≤ s.line ∧ s.line < index + ls.length := by
  induction ls generalizing index inside with
  | nil => simp [collect] at h
  | cons line ls ih =>
      rw [collect, List.mem_append] at h
      rw [List.length_cons]
      rcases h with h | h
      · have hline := line_of_mem_lineSpans catalog h
        omega
      · have hline := ih h
        omega

theorem collect_append (index : Nat) (inside : Bool) (ls ms : List (List Char)) :
    collect catalog index inside (ls ++ ms) =
      collect catalog index inside ls ++
        collect catalog (index + ls.length) (ls.foldl Comment.openAfter inside) ms := by
  induction ls generalizing index inside with
  | nil => rfl
  | cons line ls ih =>
      rw [List.cons_append, collect, ih, collect, List.append_assoc, List.length_cons,
        List.foldl_cons, Nat.add_assoc, Nat.add_comm 1]

theorem collect_add (index count : Nat) (inside : Bool) (ls : List (List Char)) :
    collect catalog (index + count) inside ls =
      (collect catalog index inside ls).map (Span.down count) := by
  induction ls generalizing index inside with
  | nil => rfl
  | cons line ls ih =>
      rw [collect, collect, lineSpans_add, Nat.add_right_comm, ih, List.map_append]

/-- The spans of consecutive lines in order; the first line has number `index`. -/
def spansFrom (index : Nat) (inside : Bool) (ls : List (List Char)) : List Span :=
  (collect catalog index inside ls).mergeSort Span.notAfter

theorem classify_eq_spansFrom (text : List Char) :
    classify catalog text = spansFrom catalog 0 false (Text.lines text) := rfl

theorem inOrder_classify (text : List Char) : InOrder (classify catalog text) :=
  List.pairwise_mergeSort Span.notAfter_trans Span.notAfter_total _

theorem line_of_mem_spansFrom {index : Nat} {inside : Bool} {ls : List (List Char)} {s : Span}
    (h : s ∈ spansFrom catalog index inside ls) : index ≤ s.line ∧ s.line < index + ls.length :=
  line_of_mem_collect catalog (List.mem_mergeSort.mp h)

theorem spansFrom_append (index : Nat) (inside : Bool) (ls ms : List (List Char)) :
    spansFrom catalog index inside (ls ++ ms) =
      spansFrom catalog index inside ls ++
        spansFrom catalog (index + ls.length) (ls.foldl Comment.openAfter inside) ms := by
  rw [spansFrom, collect_append]
  apply mergeSort_append_of_forall_le Span.notAfter_trans Span.notAfter_total
  intro a ha b hb
  have hlast := (line_of_mem_collect catalog ha).2
  have hfirst := (line_of_mem_collect catalog hb).1
  exact Span.notAfter_iff.mpr (Or.inl (by omega))

theorem spansFrom_add (index count : Nat) (inside : Bool) (ls : List (List Char)) :
    spansFrom catalog (index + count) inside ls =
      (spansFrom catalog index inside ls).map (Span.down count) := by
  rw [spansFrom, collect_add, spansFrom, List.map_mergeSort]
  intro a _ b _
  exact (Span.notAfter_down count a b).symm

theorem map_renumber_spansFrom {f : Nat → Nat} {index index' : Nat}
    (h : ∀ k, f (k + index) = k + index') (inside : Bool) (ls : List (List Char)) :
    (spansFrom catalog index inside ls).map (fun s => { s with line := f s.line }) =
      spansFrom catalog index' inside ls := by
  rw [← Nat.zero_add index, spansFrom_add, ← Nat.zero_add index', spansFrom_add, List.map_map]
  refine List.map_congr_left fun s _ => ?_
  simp only [Function.comp_apply, Span.down, h]

/-- Any line splits the spans into those of the lines before it and those of the lines from it on,
for the comment block that may be open before it. -/
theorem spansFrom_split (ls : List (List Char)) {index : Nat} (h : index ≤ ls.length) :
    spansFrom catalog 0 false ls =
      spansFrom catalog 0 false (ls.take index)
        ++ spansFrom catalog index (Comment.openBefore ls index) (ls.drop index) := by
  have hsplit := spansFrom_append catalog 0 false (ls.take index) (ls.drop index)
  rwa [List.take_append_drop, List.length_take_of_le h, Nat.zero_add] at hsplit

theorem line_lt_of_mem_take {ls : List (List Char)} {index : Nat} {s : Span}
    (h : s ∈ spansFrom catalog 0 false (ls.take index)) : s.line < index := by
  have hline := (line_of_mem_spansFrom catalog h).2
  rw [List.length_take] at hline
  omega

theorem filter_line_lt_spansFrom (ls : List (List Char)) {index : Nat} (h : index ≤ ls.length) :
    (spansFrom catalog 0 false ls).filter (·.line < index) =
      spansFrom catalog 0 false (ls.take index) := by
  rw [spansFrom_split catalog ls h, List.filter_append, List.filter_eq_self.mpr,
    List.filter_eq_nil_iff.mpr, List.append_nil]
  · intro s hs
    have hline := (line_of_mem_spansFrom catalog hs).1
    simpa using hline
  · intro s hs
    exact decide_eq_true (line_lt_of_mem_take catalog hs)

theorem filter_le_line_spansFrom (ls : List (List Char)) {index : Nat} (h : index ≤ ls.length) :
    (spansFrom catalog 0 false ls).filter (index ≤ ·.line) =
      spansFrom catalog index (Comment.openBefore ls index) (ls.drop index) := by
  rw [spansFrom_split catalog ls h]
  apply filter_append_of_test
  · intro s hs
    have hline := line_lt_of_mem_take catalog hs
    simpa using hline
  · intro s hs
    exact decide_eq_true (line_of_mem_spansFrom catalog hs).1

end FoamDict.Highlight
