import Mathlib.Order.Bounds.Basic
import Mathlib.Order.MinMax
import FoamDict.Brace
import FoamDict.Proofs.Text.Line

/-!
# The level of open braces

The level behind some lines is the number of braces they open less the number they close. A line is
at fault exactly if it takes the level below everything before it: counting again from zero behind a
fault is counting from the lowest level so far. What stands above the lowest level at the end is
missing.
-/

namespace FoamDict.Brace

open FoamDict.Text

theorem balance_append (cs ds : List Char) : balance (cs ++ ds) = balance cs + balance ds := by
  simp only [balance, List.count_append]
  omega

/-- The braces opened less the braces closed on the first `count` lines. -/
def level (ls : List (List Char)) (count : Nat) : Int := balance (ls.take count).flatten

/-- The least level that is reached behind `count` lines or fewer. -/
def lowest (ls : List (List Char)) : Nat → Int
  | 0 => 0
  | count + 1 => min (lowest ls count) (level ls (count + 1))

section Levels

variable {ls : List (List Char)} {line : List Char} {i count : Nat}

@[simp] theorem level_zero (ls : List (List Char)) : level ls 0 = 0 := rfl

theorem level_succ (h : ls[i]? = some line) : level ls (i + 1) = level ls i + balance line := by
  rw [level, List.take_add_one, h, List.flatten_append, balance_append, ← level]
  simp

theorem lowest_le_level (ls : List (List Char)) (count : Nat) :
    lowest ls count ≤ level ls count := by
  cases count with
  | zero => exact le_rfl
  | succ count => exact min_le_right _ _

theorem isLeast_lowest (ls : List (List Char)) (count : Nat) :
    IsLeast (level ls '' Set.Iic count) (lowest ls count) := by
  induction count with
  | zero =>
      refine ⟨⟨0, Set.mem_Iic.mpr le_rfl, rfl⟩, ?_⟩
      rintro _ ⟨k, hk, rfl⟩
      rw [Nat.le_zero.mp hk]
      exact le_rfl
  | succ count ih =>
      constructor
      · rcases min_choice (lowest ls count) (level ls (count + 1)) with h | h
        · obtain ⟨k, hk, hlevel⟩ := ih.1
          exact ⟨k, Nat.le_succ_of_le hk, hlevel.trans h.symm⟩
        · exact ⟨count + 1, Set.mem_Iic.mpr le_rfl, h.symm⟩
      · rintro _ ⟨k, hk, rfl⟩
        rcases Nat.le_succ_iff.mp hk with hk | rfl
        · exact (min_le_left _ _).trans (ih.2 ⟨k, hk, rfl⟩)
        · exact min_le_right _ _

/-- The least level is that of the start exactly if no lines close more braces than they open. -/
theorem lowest_eq_zero_iff : lowest ls count = 0 ↔ ∀ k ≤ count, 0 ≤ level ls k := by
  have hleast := isLeast_lowest ls count
  constructor
  · intro h k hk
    exact h ▸ hleast.2 ⟨k, hk, rfl⟩
  · intro h
    obtain ⟨k, hk, hlevel⟩ := hleast.1
    have hstart : lowest ls count ≤ level ls 0 := hleast.2 ⟨0, Nat.zero_le _, rfl⟩
    have hpos := h k hk
    rw [level_zero] at hstart
    omega

end Levels

/-- The extent of the last of some lines. -/
def lastExtent (ls : List (List Char)) : Extent := .ofLine (ls.length - 1) (ls.getLastD [])

def unmatchedClose (line : List Char × Nat) : Fault := ⟨.ofLine line.2 line.1, .unmatchedClose⟩

/-- The faults of the lines that take the level below everything before them. -/
def sinking (ls : List (List Char)) (index : Nat) (rest : List (List Char)) : List Fault :=
  ((rest.zipIdx index).filter fun line => level ls (line.2 + 1) < lowest ls line.2).map
    unmatchedClose

/-- The fault of lines that end above their lowest level. -/
def missing (ls : List (List Char)) : List Fault :=
  if lowest ls ls.length < level ls ls.length then
    [⟨lastExtent ls, .missingClose (level ls ls.length - lowest ls ls.length).toNat⟩]
  else []

/-- The depth of a scan is the level above the lowest one so far. -/
theorem faultsFrom_eq {ls rest : List (List Char)} (above : List (List Char)) {depth : Nat}
    (hls : ls = above ++ rest)
    (hdepth : (depth : Int) = level ls above.length - lowest ls above.length) :
    faultsFrom above.length depth (lastExtent above) rest =
      sinking ls above.length rest ++ missing ls := by
  induction rest generalizing above depth with
  | nil =>
      rw [List.append_nil] at hls
      subst hls
      rw [faultsFrom, sinking, missing, ← hdepth]
      by_cases hzero : depth = 0
      · rw [if_pos hzero, if_neg (by omega)]
        rfl
      · rw [if_neg hzero, if_pos (by omega)]
        rfl
  | cons line rest ih =>
      have hget : ls[above.length]? = some line := by simp [hls]
      have hlevel := level_succ hget
      have hnext : ls = (above ++ [line]) ++ rest := by simp [hls]
      have hlast : lastExtent (above ++ [line]) = .ofLine above.length line := by
        simp [lastExtent]
      have hlength : (above ++ [line]).length = above.length + 1 := by simp
      have hrest {depth' : Nat}
          (h : (depth' : Int) = level ls (above.length + 1) - lowest ls (above.length + 1)) :
          faultsFrom (above.length + 1) depth' (.ofLine above.length line) rest =
            sinking ls (above.length + 1) rest ++ missing ls := by
        rw [← hlength, ← hlast]
        exact ih _ hnext (hlength ▸ h)
      rw [faultsFrom, sinking, List.zipIdx_cons, List.filter_cons]
      rw [lowest] at hrest
      by_cases hsinks : level ls (above.length + 1) < lowest ls above.length
      · rw [if_pos (by omega), if_pos (decide_eq_true hsinks), hrest (by omega)]
        rfl
      · rw [if_neg (by omega), if_neg (by simpa using hsinks), hrest (by omega)]
        rfl

section Reading

variable {ls : List (List Char)} {f : Fault}

theorem mem_sinking_iff : f ∈ sinking ls 0 ls ↔
    ∃ line i, ls[i]? = some line ∧ level ls (i + 1) < lowest ls i ∧
      unmatchedClose (line, i) = f := by
  simp only [sinking, List.mem_map, List.mem_filter, Prod.exists, List.mk_mem_zipIdx_iff_getElem?,
    decide_eq_true_eq, and_assoc]

theorem mem_missing_iff : f ∈ missing ls ↔ lowest ls ls.length < level ls ls.length ∧
    f = ⟨lastExtent ls, .missingClose (level ls ls.length - lowest ls ls.length).toNat⟩ := by
  rw [missing]
  split
  case isTrue h => simp [h]
  case isFalse h => simp [h]

theorem kind_of_mem_sinking (hf : f ∈ sinking ls 0 ls) : f.kind = .unmatchedClose := by
  obtain ⟨line, i, _, _, rfl⟩ := mem_sinking_iff.mp hf
  rfl

/-- A line that goes below everything before it leaves nothing missing behind it. -/
theorem line_lt_of_mem_sinking (hf : f ∈ sinking ls 0 ls)
    (hmissing : lowest ls ls.length < level ls ls.length) : f.extent.line < ls.length - 1 := by
  obtain ⟨line, i, hget, hsinks, rfl⟩ := mem_sinking_iff.mp hf
  have hlt : i < ls.length := (List.getElem?_eq_some_iff.mp hget).1
  have hne : i + 1 ≠ ls.length := by
    intro hlast
    rw [← hlast, lowest] at hmissing
    omega
  show i < ls.length - 1
  omega

theorem exists_unmatched_iff (i : Nat) :
    (∃ f ∈ sinking ls 0 ls ++ missing ls, f.extent.line = i ∧ f.kind = .unmatchedClose) ↔
      i < ls.length ∧ level ls (i + 1) < lowest ls i := by
  constructor
  · rintro ⟨f, hf, rfl, hkind⟩
    rcases List.mem_append.mp hf with hf | hf
    · obtain ⟨line, i, hget, hsinks, rfl⟩ := mem_sinking_iff.mp hf
      exact ⟨(List.getElem?_eq_some_iff.mp hget).1, hsinks⟩
    · rw [(mem_missing_iff.mp hf).2] at hkind
      cases hkind
  · rintro ⟨hlt, hsinks⟩
    have hf := mem_sinking_iff.mpr ⟨ls[i], i, List.getElem?_eq_getElem hlt, hsinks, rfl⟩
    exact ⟨_, List.mem_append_left _ hf, rfl, rfl⟩

theorem pairwise_line_lt (ls : List (List Char)) :
    (sinking ls 0 ls ++ missing ls).Pairwise fun a b => a.extent.line < b.extent.line := by
  have hzip : ls.zipIdx.Pairwise fun a b => a.2 < b.2 := by
    rw [← List.pairwise_map, List.zipIdx_map_snd]
    exact List.pairwise_lt_range' 1
  refine List.pairwise_append.mpr ⟨?_, ?_, fun a ha b hb => ?_⟩
  · rw [sinking, List.pairwise_map]
    exact hzip.filter _
  · rw [missing]
    split
    · exact List.pairwise_singleton _ _
    · exact List.Pairwise.nil
  · obtain ⟨hmissing, rfl⟩ := mem_missing_iff.mp hb
    exact line_lt_of_mem_sinking ha hmissing

theorem exists_line_of_mem (hne : ls ≠ []) (hf : f ∈ sinking ls 0 ls ++ missing ls) :
    ∃ line, ls[f.extent.line]? = some line ∧ f.extent.start = 0 ∧ f.extent.stop = units line := by
  rcases List.mem_append.mp hf with hf | hf
  · obtain ⟨line, i, hget, _, rfl⟩ := mem_sinking_iff.mp hf
    exact ⟨line, hget, rfl, rfl⟩
  · obtain ⟨_, rfl⟩ := mem_missing_iff.mp hf
    have hlast := List.getLast?_eq_some_getLast hne
    refine ⟨ls.getLast hne, List.getLast?_eq_getElem?.symm.trans hlast, rfl, ?_⟩
    show units (ls.getLastD []) = _
    rw [List.getLastD_eq_getLast?, hlast, Option.getD_some]

theorem lowest_eq_zero_of_forall_le {count : Nat}
    (h : ∀ i < count, lowest ls i ≤ level ls (i + 1)) : lowest ls count = 0 := by
  induction count with
  | zero => rfl
  | succ count ih =>
      have hlowest := ih fun i hi => h i (Nat.lt_succ_of_lt hi)
      rw [lowest, min_eq_left (h count (Nat.lt_succ_self _)), hlowest]

theorem append_missing_eq_nil_iff : sinking ls 0 ls ++ missing ls = [] ↔
    (∀ count ≤ ls.length, 0 ≤ level ls count) ∧ level ls ls.length = 0 := by
  have hmissing : missing ls = [] ↔ level ls ls.length = lowest ls ls.length := by
    have hle := lowest_le_level ls ls.length
    simp only [List.eq_nil_iff_forall_not_mem, mem_missing_iff, not_and]
    constructor
    · intro h
      by_contra hne
      exact h _ (by omega) rfl
    · intro h f hlt
      omega
  have hsinking : sinking ls 0 ls = [] ↔ ∀ i < ls.length, lowest ls i ≤ level ls (i + 1) := by
    simp only [List.eq_nil_iff_forall_not_mem, mem_sinking_iff, not_exists, not_and]
    constructor
    · intro h i hi
      by_contra hlt
      exact h _ ls[i] i (List.getElem?_eq_getElem hi) (by omega) rfl
    · intro h f line i hget hlt
      have hle := h i (List.getElem?_eq_some_iff.mp hget).1
      omega
  rw [List.append_eq_nil_iff, hmissing, hsinking]
  constructor
  · rintro ⟨hrise, hend⟩
    have hlowest := lowest_eq_zero_of_forall_le hrise
    exact ⟨lowest_eq_zero_iff.mp hlowest, hend.trans hlowest⟩
  · rintro ⟨hpos, hend⟩
    refine ⟨fun i hi => ?_, hend.trans (lowest_eq_zero_iff.mpr hpos).symm⟩
    have hlowest : lowest ls i = 0 := lowest_eq_zero_iff.mpr fun k hk => hpos k (by omega)
    rw [hlowest]
    exact hpos (i + 1) hi

end Reading

/-- The faults of some lines are read off the levels at the line ends. -/
structure Reflected (ls : List (List Char)) (fs : List Fault) : Prop where
  unmatched_iff : ∀ i, (∃ f ∈ fs, f.extent.line = i ∧ f.kind = .unmatchedClose) ↔
    i < ls.length ∧ level ls (i + 1) < lowest ls i
  missing_last : ∃ unmatched, (∀ f ∈ unmatched, f.kind = .unmatchedClose) ∧
    fs = unmatched ++ missing ls
  ordered : fs.Pairwise fun a b => a.extent.line < b.extent.line
  extents : ∀ f ∈ fs, ∃ line, ls[f.extent.line]? = some line ∧
    f.extent.start = 0 ∧ f.extent.stop = units line
  eq_nil_iff : fs = [] ↔
    (∀ count ≤ ls.length, 0 ≤ level ls count) ∧ level ls ls.length = 0

theorem faults_reflected (text : List Char) : Reflected (lines text) (faults text) := by
  have hne : lines text ≠ [] := by
    rw [← List.length_pos_iff, length_lines, length_pieces]
    exact Nat.succ_pos _
  have hfaults : faults text = sinking (lines text) 0 (lines text) ++ missing (lines text) :=
    faultsFrom_eq [] rfl rfl
  rw [hfaults]
  exact ⟨exists_unmatched_iff, ⟨_, fun _ => kind_of_mem_sinking, rfl⟩, pairwise_line_lt _,
    fun _ => exists_line_of_mem hne, append_missing_eq_nil_iff⟩

end FoamDict.Brace
