import Mathlib.Order.Nat
import FoamDict.Proofs.Highlight.Line

/-!
# Regions of comment lines

A region of comment lines opens at a line that starts with `/*` after blanks and goes to the first
later line that holds `*/`, or to the last line of the text; only behind it can the next one open.
The one bit that the scan hands from line to line says where regions are: a comment block is open
before a line exactly if a region has opened on an earlier line and goes on. So the comment lines
are those of the regions and the line comments outside, and any other line has its spans from
itself.
-/

namespace FoamDict.Highlight

open FoamDict.Keyword (Catalog Sections)
open FoamDict.Text

namespace Comment

def Opens (line : List Char) : Prop := ['/', '*'] <+: trim line

def Closes (line : List Char) : Prop := ['*', '/'] <:+: line

theorem opensBlock_iff (line : List Char) : opensBlock line ↔ Opens line :=
  List.isPrefixOf_iff_prefix

theorem closesBlock_iff (line : List Char) : closesBlock line ↔ Closes line := by
  fun_induction closesBlock line with
  | case1 cs => simpa using ⟨[], cs, rfl⟩
  | case2 c cs hne ih =>
      have hfirst : ¬ ['*', '/'] <+: c :: cs := by
        rintro ⟨rest, hrest⟩
        rw [List.cons_append, List.singleton_append, List.cons.injEq] at hrest
        exact hne rest hrest.1.symm hrest.2.symm
      rw [ih, Closes, Closes, List.infix_cons_iff, or_iff_right hfirst]
  | case3 => simp [Closes]

/-- Line `i` is the first one from line `start` on that has a property. -/
def IsFirst (holds : List Char → Prop) (ls : List (List Char)) (start i : Nat) : Prop :=
  IsLeast {j | start ≤ j ∧ ∃ line, ls[j]? = some line ∧ holds line} i

/-- What opens at line `first` goes to the first line behind it that closes, or to the last line if
none does. -/
def EndsAt (ls : List (List Char)) (first last : Nat) : Prop :=
  IsFirst Closes ls (first + 1) last ∨
    (∀ i, ¬ IsFirst Closes ls (first + 1) i) ∧ last + 1 = ls.length

/-- The regions of comment lines, each from its first line to its last. -/
inductive Region (ls : List (List Char)) : Nat → Nat → Prop
  | first {first last : Nat} (hfirst : IsFirst Opens ls 0 first) (hlast : EndsAt ls first last) :
      Region ls first last
  | next {first last first' last' : Nat} (h : Region ls first last)
      (hfirst : IsFirst Opens ls (last + 1) first') (hlast : EndsAt ls first' last') :
      Region ls first' last'

def InRegion (ls : List (List Char)) (i : Nat) : Prop :=
  ∃ first last, Region ls first last ∧ first ≤ i ∧ i ≤ last

section Lines

variable {ls : List (List Char)} {line : List Char} {holds : List Char → Prop}
  {start i first last : Nat}

theorem isFirst_self (hget : ls[i]? = some line) (h : holds line) : IsFirst holds ls i i :=
  ⟨⟨Nat.le_refl i, line, hget, h⟩, fun _ hj => hj.1⟩

theorem IsFirst.of_succ (h : IsFirst holds ls (start + 1) i) (hget : ls[start]? = some line)
    (hnot : ¬ holds line) : IsFirst holds ls start i := by
  refine ⟨⟨Nat.le_of_succ_le h.1.1, h.1.2⟩, fun j hj => h.2 ⟨?_, hj.2⟩⟩
  rcases Nat.eq_or_lt_of_le hj.1 with rfl | hlt
  · obtain ⟨line', hget', hholds⟩ := hj.2
    rw [hget] at hget'
    exact absurd (Option.some.inj hget' ▸ hholds) hnot
  · exact hlt

theorem IsFirst.not_holds {j : Nat} (h : IsFirst holds ls start i) (hstart : start ≤ j) (hj : j < i)
    (hget : ls[j]? = some line) : ¬ holds line := fun hholds =>
  absurd (h.2 ⟨hstart, line, hget, hholds⟩) (Nat.not_le.mpr hj)

theorem exists_isFirst (hstart : start ≤ i) (hget : ls[i]? = some line) (h : holds line) :
    ∃ j, IsFirst holds ls start j := by
  classical
  exact ⟨_, Nat.isLeast_find ⟨i, hstart, line, hget, h⟩⟩

theorem exists_endsAt (h : first < ls.length) : ∃ last, EndsAt ls first last := by
  by_cases hcloses : ∃ last, IsFirst Closes ls (first + 1) last
  · obtain ⟨last, hlast⟩ := hcloses
    exact ⟨last, Or.inl hlast⟩
  · exact ⟨ls.length - 1, Or.inr ⟨not_exists.mp hcloses, by omega⟩⟩

theorem EndsAt.not_closes {j : Nat} (h : EndsAt ls first last) (hfirst : first < j) (hj : j < last)
    (hget : ls[j]? = some line) : ¬ Closes line := by
  rcases h with h | ⟨hnone, _⟩
  · exact h.not_holds hfirst hj hget
  · intro hcloses
    have hexists : ∃ i, IsFirst Closes ls (first + 1) i := exists_isFirst hfirst hget hcloses
    exact not_exists.mpr hnone hexists

theorem EndsAt.le (h : EndsAt ls first last) (hfirst : first < ls.length) : first ≤ last := by
  rcases h with h | ⟨_, hlast⟩
  · exact Nat.le_of_succ_le h.1.1
  · omega

theorem EndsAt.lt_length (h : EndsAt ls first last) : last < ls.length := by
  rcases h with ⟨⟨_, line, hget, _⟩, _⟩ | ⟨_, hlast⟩
  · exact (List.getElem?_eq_some_iff.mp hget).1
  · omega

/-- A region that does not end with a line goes on to the next one, if there is a next one. -/
theorem EndsAt.succ_le (h : EndsAt ls first last) (hi : i ≤ last) (hnext : i + 1 < ls.length)
    (hget : ls[i]? = some line) (hcloses : first < i → ¬ Closes line) : i + 1 ≤ last := by
  rcases h with h | ⟨_, hlast⟩
  · obtain ⟨hbehind, line', hget', hholds⟩ := h.1
    rcases Nat.eq_or_lt_of_le hi with rfl | hlt
    · rw [hget] at hget'
      exact absurd (Option.some.inj hget' ▸ hholds) (hcloses hbehind)
    · exact hlt
  · omega

/-- A line inside a region that closes it is its last one. -/
theorem EndsAt.eq_of_closes (h : EndsAt ls first last) (hfirst : first < i) (hi : i ≤ last)
    (hget : ls[i]? = some line) (hcloses : Closes line) : last = i := by
  by_contra hne
  exact h.not_closes hfirst (by omega) hget hcloses

end Lines

section State

variable {ls : List (List Char)} {line : List Char} {i first last : Nat}

theorem Region.endsAt (h : Region ls first last) : EndsAt ls first last := by
  cases h with
  | first _ hlast => exact hlast
  | next _ _ hlast => exact hlast

theorem Region.exists_opens (h : Region ls first last) :
    ∃ line, ls[first]? = some line ∧ Opens line := by
  cases h with
  | first hfirst _ => exact hfirst.1.2
  | next _ hfirst _ => exact hfirst.1.2

theorem openBefore_succ (hget : ls[i]? = some line) :
    openBefore ls (i + 1) = openAfter (openBefore ls i) line := by
  rw [openBefore, List.take_add_one, hget, Option.toList_some, List.foldl_concat, openBefore]

theorem openAfter_true_iff (line : List Char) : openAfter true line ↔ ¬ Closes line := by
  rw [← closesBlock_iff, openAfter, if_pos rfl]
  simp

theorem openAfter_false_iff (line : List Char) : openAfter false line ↔ Opens line := by
  rw [← opensBlock_iff, openAfter, if_neg Bool.false_ne_true]

/-- Where the scan stands before a line. Inside, there is a region that goes on at the line;
outside, the first line from there on that opens a block starts a region. -/
def Tracked (ls : List (List Char)) (i : Nat) : Prop :=
  if openBefore ls i then ∃ first last, Region ls first last ∧ first < i ∧ i ≤ last
  else ∀ first last, IsFirst Opens ls i first → EndsAt ls first last → Region ls first last

theorem tracked_succ_of_inside (hregion : Region ls first last) (hfirst : first < i)
    (hi : i ≤ last) (hopen : openBefore ls i) (hget : ls[i]? = some line)
    (hnext : i + 1 < ls.length) : Tracked ls (i + 1) := by
  have hopen' : openBefore ls (i + 1) ↔ ¬ Closes line := by
    rw [openBefore_succ hget, hopen, openAfter_true_iff]
  rw [Tracked]
  by_cases hcloses : Closes line
  · rw [if_neg (hopen'.not.mpr (not_not.mpr hcloses))]
    obtain rfl := hregion.endsAt.eq_of_closes hfirst hi hget hcloses
    exact fun _ _ hfirst' hlast' => .next hregion hfirst' hlast'
  · rw [if_pos (hopen'.mpr hcloses)]
    have hlast := hregion.endsAt.succ_le hi hnext hget fun _ => hcloses
    exact ⟨first, last, hregion, Nat.lt_succ_of_lt hfirst, hlast⟩

theorem tracked_succ_of_outside
    (h : ∀ first last, IsFirst Opens ls i first → EndsAt ls first last → Region ls first last)
    (hopen : ¬ openBefore ls i) (hget : ls[i]? = some line) (hnext : i + 1 < ls.length) :
    Tracked ls (i + 1) := by
  have hopen' : openBefore ls (i + 1) ↔ Opens line := by
    rw [openBefore_succ hget, eq_false_of_ne_true hopen, openAfter_false_iff]
  rw [Tracked]
  by_cases hopens : Opens line
  · rw [if_pos (hopen'.mpr hopens)]
    obtain ⟨last, hends⟩ := exists_endsAt (Nat.lt_of_succ_lt hnext)
    have hle := hends.le (Nat.lt_of_succ_lt hnext)
    have hlast := hends.succ_le hle hnext hget fun hlt => absurd hlt (Nat.lt_irrefl i)
    exact ⟨i, last, h i last (isFirst_self hget hopens) hends, Nat.lt_succ_self i, hlast⟩
  · rw [if_neg (hopen'.not.mpr hopens)]
    exact fun first last hfirst hlast => h first last (hfirst.of_succ hget hopens) hlast

theorem tracked (h : i < ls.length) : Tracked ls i := by
  induction i with
  | zero => exact fun _ _ hfirst hlast => .first hfirst hlast
  | succ i ih =>
      have hi : i < ls.length := Nat.lt_of_succ_lt h
      have hget := List.getElem?_eq_getElem hi
      have htracked := ih hi
      rw [Tracked] at htracked
      split at htracked
      case isTrue hopen =>
        obtain ⟨first, last, hregion, hfirst, hlast⟩ := htracked
        exact tracked_succ_of_inside hregion hfirst hlast hopen hget h
      case isFalse hopen => exact tracked_succ_of_outside htracked hopen hget h

/-- The scan stays as it is over lines that do not change its state. -/
theorem openBefore_eq_of_forall {state : Bool} {start : Nat} (h : openBefore ls start = state)
    (hi : start ≤ i) (hlength : i ≤ ls.length)
    (hstays : ∀ j line, start ≤ j → j < i → ls[j]? = some line → openAfter state line = state) :
    openBefore ls i = state := by
  induction i, hi using Nat.le_induction with
  | base => exact h
  | succ i hi ih =>
      have hget := List.getElem?_eq_getElem (Nat.lt_of_succ_le hlength)
      have hbefore := ih (Nat.le_of_succ_le hlength) fun j line hj hlt =>
        hstays j line hj (Nat.lt_succ_of_lt hlt)
      rw [openBefore_succ hget, hbefore]
      exact hstays i _ hi (Nat.lt_succ_self i) hget

theorem openBefore_of_isFirst {start : Nat} (h : openBefore ls start = false)
    (hfirst : IsFirst Opens ls start i) : openBefore ls i = false := by
  obtain ⟨hstart, line, hget, _⟩ := hfirst.1
  have hlength := (List.getElem?_eq_some_iff.mp hget).1
  refine openBefore_eq_of_forall h hstart hlength.le fun j line hj hlt hget' => ?_
  rw [← Bool.not_eq_true, openAfter_false_iff]
  exact hfirst.not_holds hj hlt hget'

/-- Behind its first line, a comment block is open before every line of a region. -/
theorem openBefore_of_endsAt (h : openBefore ls first = false) (hget : ls[first]? = some line)
    (hopens : Opens line) (hends : EndsAt ls first last) (hfirst : first < i) (hi : i ≤ last) :
    openBefore ls i = true := by
  have hstart : openBefore ls (first + 1) = true := by
    rw [openBefore_succ hget, h, openAfter_false_iff]
    exact hopens
  refine openBefore_eq_of_forall hstart hfirst (hi.trans hends.lt_length.le)
    fun j line hj hlt hget' => ?_
  rw [openAfter_true_iff]
  exact hends.not_closes hj (hlt.trans_le hi) hget'

theorem Region.openBefore_first (h : Region ls first last) : openBefore ls first = false := by
  induction h with
  | first hfirst _ => exact openBefore_of_isFirst rfl hfirst
  | @next first last first' last' h hfirst _ ih =>
      obtain ⟨line, hget, hopens⟩ := h.exists_opens
      obtain ⟨hbehind, line', hget', _⟩ := hfirst.1
      have hlength := (List.getElem?_eq_some_iff.mp hget').1
      rcases h.endsAt with hclosed | ⟨_, hlast⟩
      · obtain ⟨hlt, closing, hclosing, hcloses⟩ := hclosed.1
        have hinside := openBefore_of_endsAt ih hget hopens h.endsAt hlt le_rfl
        have houtside : openBefore ls (last + 1) = false := by
          rw [openBefore_succ hclosing, hinside, ← Bool.not_eq_true, openAfter_true_iff, not_not]
          exact hcloses
        exact openBefore_of_isFirst houtside hfirst
      · omega

/-- A line stands in a region exactly if a block is open before it or opens there. -/
theorem inRegion_iff (hget : ls[i]? = some line) :
    InRegion ls i ↔ openBefore ls i ∨ Opens line := by
  have hlength := (List.getElem?_eq_some_iff.mp hget).1
  have htracked := tracked hlength
  rw [Tracked] at htracked
  constructor
  · rintro ⟨first, last, hregion, hfirst, hlast⟩
    obtain ⟨line', hget', hopens⟩ := hregion.exists_opens
    rcases Nat.eq_or_lt_of_le hfirst with rfl | hlt
    · rw [hget] at hget'
      exact Or.inr (Option.some.inj hget' ▸ hopens)
    · have hbefore := hregion.openBefore_first
      exact Or.inl (openBefore_of_endsAt hbefore hget' hopens hregion.endsAt hlt hlast)
  · intro h
    by_cases hopen : openBefore ls i
    · rw [if_pos hopen] at htracked
      obtain ⟨first, last, hregion, hfirst, hlast⟩ := htracked
      exact ⟨first, last, hregion, hfirst.le, hlast⟩
    · rw [if_neg hopen] at htracked
      obtain ⟨last, hends⟩ := exists_endsAt hlength
      have hfirst := isFirst_self hget (h.resolve_left hopen)
      exact ⟨i, last, htracked i last hfirst hends, le_rfl, hends.le hlength⟩

/-- Comment lines are the lines of the regions and, outside, those that start with `//`. -/
def IsCommentLine (ls : List (List Char)) (i : Nat) (line : List Char) : Prop :=
  InRegion ls i ∨ ['/', '/'] <+: trim line

theorem covers_iff (hget : ls[i]? = some line) :
    covers (openBefore ls i) line ↔ IsCommentLine ls i line := by
  rw [covers, Bool.or_eq_true, Bool.or_eq_true, opensBlock_iff, ← inRegion_iff hget, isLineComment,
    List.isPrefixOf_iff_prefix, IsCommentLine]

end State

end Comment

/-- A comment line is one span, if it is not empty; any other line has no comment, and its spans are
those of the line on its own. -/
theorem comment_lines (sections : Sections) (text : List Char) :
    ∃ spans, classify? (Catalog.assemble sections) text = some spans ∧
      ∀ i line, (lines text)[i]? = some line →
        (Comment.IsCommentLine (lines text) i line →
          spans.filter (·.line = i) = if line = [] then [] else [⟨i, 0, units line, .comment⟩]) ∧
        (¬ Comment.IsCommentLine (lines text) i line →
          (∀ s ∈ spans, s.line = i → s.category ≠ .comment) ∧
            spans.filter (·.line = i) =
              (codeLayout (Catalog.assemble sections) line).map (Span.down i)) := by
  refine ⟨_, classify?_eq _ text, fun i line hget => ?_⟩
  rw [filter_line_classify _ hget, ← Comment.covers_iff hget]
  refine ⟨fun h => lineLayout_of_covers _ h, fun h => ?_⟩
  have hlayout := lineLayout_of_not_covers (Catalog.assemble sections) h
  refine ⟨fun s hs hline => ?_, hlayout⟩
  have hmem : s ∈ lineLayout (Catalog.assemble sections) (lines text) i line := by
    rw [← filter_line_classify _ hget, List.mem_filter, decide_eq_true_eq]
    exact ⟨hs, hline⟩
  rw [hlayout, List.mem_map] at hmem
  obtain ⟨s', hs', rfl⟩ := hmem
  exact category_ne_comment_of_mem_codeLayout (s := s') hs'

/-- What closes on the opening line does not count, and a region that nothing closes goes to the end
of the text. -/
theorem comment_lines_around_code :
    ∃ spans, classify? (Catalog.assemble {})
        ['/', '*', '/', '\n', '*', '/', '\n', '5', '\n', '/', '*', '\n', '6'] = some spans ∧
      spans.filter (·.line = 1) = [⟨1, 0, 2, .comment⟩] ∧
      spans.filter (·.line = 2) = [⟨2, 0, 1, .number⟩] ∧
      spans.filter (·.line = 4) = [⟨4, 0, 1, .comment⟩] := by
  obtain ⟨spans, hspans, h⟩ := comment_lines {}
    ['/', '*', '/', '\n', '*', '/', '\n', '5', '\n', '/', '*', '\n', '6']
  have hfirst := (h 1 ['*', '/'] (by decide)).1 ((Comment.covers_iff (by decide)).mp (by decide))
  have hcode := (h 2 ['5'] (by decide)).2 ((Comment.covers_iff (by decide)).not.mp (by decide))
  have hsecond := (h 4 ['6'] (by decide)).1 ((Comment.covers_iff (by decide)).mp (by decide))
  have hfive : codeSpans (Catalog.assemble {}) 0 ['5'] = [⟨0, 0, 1, .number⟩] := by decide
  have hlayout : codeLayout (Catalog.assemble {}) ['5'] = [⟨0, 0, 1, .number⟩] := by
    simp [codeLayout, hfive]
  refine ⟨spans, hspans, hfirst, ?_, hsecond⟩
  rw [hcode.2, hlayout]
  rfl

end FoamDict.Highlight
