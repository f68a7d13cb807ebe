import Mathlib.Data.List.Basic
import FoamDict.Text.Scan

/-!
# What a scan takes

A scan cuts stretches out of a line. Counting the characters before a stretch in columns or in bytes
gives the two ways in which scans report it, so both report the same stretches in the same order.
Each stretch stands on the line behind what was before it, is not empty, is as long as the rule says
there, and ends before the next one starts.
-/

namespace FoamDict.Text

/-- A stretch of a line and what stands before it. -/
structure Cut where
  before : List Char
  text : List Char
  deriving DecidableEq

namespace Cut

def column (c : Cut) : Nat := units c.before

def occurrence (c : Cut) : Occurrence := ⟨c.column, c.text⟩

def byteRange (c : Cut) : ByteRange := ⟨bytes c.before, bytes c.before + bytes c.text⟩

/-- The cut is made on the line, where the rule gives the length of its text. -/
structure IsOn (rule : LengthRule) (line : List Char) (c : Cut) (behind : List Char) : Prop where
  line_eq : line = c.before ++ (c.text ++ behind)
  text_ne_nil : c.text ≠ []
  text_eq : c.text =
    (c.text ++ behind).take (rule c.before.getLast? (c.text ++ behind))

theorem IsOn.length_ne_zero {rule : LengthRule} {line behind : List Char} {c : Cut}
    (h : c.IsOn rule line behind) : rule c.before.getLast? (c.text ++ behind) ≠ 0 := by
  intro hzero
  have htext := h.text_eq
  rw [hzero, List.take_zero] at htext
  exact h.text_ne_nil htext

end Cut

def cutsFrom (rule : LengthRule) (before : List Char) : Nat → List Char → List Cut
  | _, [] => []
  | skip + 1, c :: cs => cutsFrom rule (before ++ [c]) skip cs
  | 0, c :: cs =>
    match rule before.getLast? (c :: cs) with
    | 0 => cutsFrom rule (before ++ [c]) 0 cs
    | n + 1 => ⟨before, c :: cs.take n⟩ :: cutsFrom rule (before ++ [c]) n cs

def cuts (rule : LengthRule) (line : List Char) : List Cut := cutsFrom rule [] 0 line

theorem cutsFrom_cons_of_eq_zero {rule : LengthRule} {before cs : List Char} {c : Char}
    (h : rule before.getLast? (c :: cs) = 0) :
    cutsFrom rule before 0 (c :: cs) = cutsFrom rule (before ++ [c]) 0 cs := by
  rw [cutsFrom, h]

theorem cutsFrom_cons_of_eq_succ {rule : LengthRule} {before cs : List Char} {c : Char} {n : Nat}
    (h : rule before.getLast? (c :: cs) = n + 1) :
    cutsFrom rule before 0 (c :: cs) =
      ⟨before, c :: cs.take n⟩ :: cutsFrom rule (before ++ [c]) n cs := by
  rw [cutsFrom, h]

variable (rule : LengthRule)

theorem scanFrom_eq_map_cutsFrom (size : Char → Nat) (before : List Char) (skip : Nat)
    (cs : List Char) :
    scanFrom size rule before.getLast? (measure size before) skip cs =
      (cutsFrom rule before skip cs).map fun c => ⟨measure size c.before, c.text⟩ := by
  induction cs generalizing before skip with
  | nil => cases skip <;> rfl
  | cons c cs ih =>
      have hlast : (before ++ [c]).getLast? = some c := List.getLast?_concat
      have hplace : measure size (before ++ [c]) = measure size before + size c := by simp
      have hnext (k : Nat) := ih (before ++ [c]) k
      simp only [hlast, hplace] at hnext
      cases skip with
      | succ skip => exact hnext skip
      | zero =>
          rw [scanFrom, cutsFrom]
          cases rule before.getLast? (c :: cs) with
          | zero => exact hnext 0
          | succ n => simp only [List.map_cons, hnext n]

theorem occurrences_eq_map_cuts (line : List Char) :
    occurrences rule line = (cuts rule line).map Cut.occurrence :=
  scanFrom_eq_map_cutsFrom rule unitsOf [] 0 line

theorem byteRanges_eq_map_cuts (line : List Char) :
    byteRanges rule line = (cuts rule line).map Cut.byteRange := by
  have hscan := scanFrom_eq_map_cutsFrom rule Char.utf8Size [] 0 line
  rw [List.getLast?_nil, measure_nil] at hscan
  rw [byteRanges, hscan, List.map_map]
  rfl

variable {rule}

theorem exists_cut_of_mem_occurrences {line : List Char} {o : Occurrence}
    (h : o ∈ occurrences rule line) : ∃ c ∈ cuts rule line, c.occurrence = o := by
  rw [occurrences_eq_map_cuts] at h
  exact List.mem_map.mp h

theorem isOn_of_mem_cutsFrom {before cs : List Char} {skip : Nat} {c : Cut}
    (h : c ∈ cutsFrom rule before skip cs) : ∃ behind, c.IsOn rule (before ++ cs) behind := by
  induction cs generalizing before skip with
  | nil => cases skip <;> simp [cutsFrom] at h
  | cons d cs ih =>
      have hnext {k : Nat} (hk : c ∈ cutsFrom rule (before ++ [d]) k cs) :
          ∃ behind, c.IsOn rule (before ++ d :: cs) behind := by
        have hrest := ih hk
        rwa [List.append_assoc, List.singleton_append] at hrest
      cases skip with
      | succ skip => exact hnext h
      | zero =>
          rw [cutsFrom] at h
          cases hrule : rule before.getLast? (d :: cs) with
          | zero =>
              rw [hrule] at h
              exact hnext h
          | succ n =>
              rw [hrule] at h
              rcases List.mem_cons.mp h with rfl | h
              · have hsplit : d :: cs = (d :: cs.take n) ++ cs.drop n := by
                  rw [List.cons_append, List.take_append_drop]
                refine ⟨cs.drop n, congrArg (before ++ ·) hsplit, List.cons_ne_nil _ _, ?_⟩
                rw [← hsplit, hrule, List.take_succ_cons]
              · exact hnext h

theorem isOn_of_mem_cuts {line : List Char} {c : Cut} (h : c ∈ cuts rule line) :
    ∃ behind, c.IsOn rule line behind := isOn_of_mem_cutsFrom h

theorem text_ne_nil_of_mem_cuts {line : List Char} {c : Cut} (h : c ∈ cuts rule line) :
    c.text ≠ [] := by
  obtain ⟨_, hon⟩ := isOn_of_mem_cuts h
  exact hon.text_ne_nil

/-- A scan goes on behind what it has taken. -/
theorem isPrefix_before_of_mem_cutsFrom {before cs : List Char} {skip : Nat} {c : Cut}
    (h : c ∈ cutsFrom rule before skip cs) : before ++ cs.take skip <+: c.before := by
  induction cs generalizing before skip with
  | nil => cases skip <;> simp [cutsFrom] at h
  | cons d cs ih =>
      have hnext {k : Nat} (hk : c ∈ cutsFrom rule (before ++ [d]) k cs) :
          before ++ d :: cs.take k <+: c.before := by
        have hrest := ih hk
        rwa [List.append_assoc, List.singleton_append] at hrest
      cases skip with
      | succ skip => exact hnext h
      | zero =>
          rw [List.take_zero, List.append_nil]
          rw [cutsFrom] at h
          split at h
          · exact (List.prefix_append _ _).trans (hnext h)
          · rcases List.mem_cons.mp h with rfl | h
            · exact List.prefix_refl _
            · exact (List.prefix_append _ _).trans (hnext h)

theorem pairwise_cutsFrom (before : List Char) (skip : Nat) (cs : List Char) :
    (cutsFrom rule before skip cs).Pairwise fun a b => a.before ++ a.text <+: b.before := by
  induction cs generalizing before skip with
  | nil => cases skip <;> simp [cutsFrom]
  | cons d cs ih =>
      cases skip with
      | succ skip => exact ih _ _
      | zero =>
          rw [cutsFrom]
          split
          · exact ih _ _
          · refine List.pairwise_cons.mpr ⟨fun c hc => ?_, ih _ _⟩
            have hprefix := isPrefix_before_of_mem_cutsFrom hc
            rwa [List.append_assoc, List.singleton_append] at hprefix

theorem pairwise_cuts (line : List Char) :
    (cuts rule line).Pairwise fun a b => a.before ++ a.text <+: b.before :=
  pairwise_cutsFrom [] 0 line

theorem units_pos {cs : List Char} (h : cs ≠ []) : 0 < units cs := by
  cases cs with
  | nil => exact absurd rfl h
  | cons c cs => exact Nat.lt_of_lt_of_le (unitsOf_pos c) (Nat.le_add_right _ _)

/-- Each occurrence ends behind its start and before the next one. -/
theorem pairwise_occurrences (rule : LengthRule) (line : List Char) :
    (occurrences rule line).Pairwise fun a b => a.start < a.stop ∧ a.stop ≤ b.start := by
  rw [occurrences_eq_map_cuts, List.pairwise_map]
  refine (pairwise_cuts line).imp_of_mem fun {a b} ha _ hprefix => ?_
  obtain ⟨_, hon⟩ := isOn_of_mem_cuts ha
  obtain ⟨between, hbetween⟩ := hprefix
  have hpos := units_pos hon.text_ne_nil
  have hunits := congrArg units hbetween
  rw [units_append, units_append] at hunits
  simp only [Occurrence.stop, Occurrence.width, Cut.occurrence, Cut.column]
  omega

end FoamDict.Text
