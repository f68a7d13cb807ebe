import FoamDict.Brace

/-!
# Faults before a line

Whether a line closes more braces than are open depends on that line and the lines before it, so
the unmatched closing braces before a line are the same in all texts that begin with the same lines.
-/

namespace FoamDict.Brace

/-- The unmatched closing braces on the lines before `index`. -/
def unmatchedBefore (index : Nat) (fs : List Fault) : List Fault :=
  fs.filter fun f => f.kind = .unmatchedClose && f.extent.line < index

theorem le_line_of_mem_faultsFrom {index depth : Nat} {last : Text.Extent}
    {ls : List (List Char)} {f : Fault} (h : f ∈ faultsFrom index depth last ls)
    (hkind : f.kind = .unmatchedClose) : index ≤ f.extent.line := by
  induction ls generalizing index depth last with
  | nil =>
      rw [faultsFrom] at h
      split at h
      · simp at h
      · rw [List.mem_singleton.mp h] at hkind
        cases hkind
  | cons line ls ih =>
      rw [faultsFrom] at h
      split at h
      · rcases List.mem_cons.mp h with rfl | h
        · exact Nat.le_refl _
        · exact Nat.le_of_succ_le (ih h)
      · exact Nat.le_of_succ_le (ih h)

theorem unmatchedBefore_faultsFrom_self (index depth : Nat) (last : Text.Extent)
    (ls : List (List Char)) : unmatchedBefore index (faultsFrom index depth last ls) = [] := by
  refine List.filter_eq_nil_iff.mpr fun f hf => ?_
  simp only [Bool.and_eq_true, decide_eq_true_eq, not_and, Nat.not_lt]
  exact le_line_of_mem_faultsFrom hf

theorem unmatchedBefore_faultsFrom_take (index depth count : Nat) (last : Text.Extent)
    (ls : List (List Char)) :
    unmatchedBefore (index + count) (faultsFrom index depth last (ls.take count)) =
      unmatchedBefore (index + count) (faultsFrom index depth last ls) := by
  induction count generalizing index depth last ls with
  | zero => rw [Nat.add_zero, unmatchedBefore_faultsFrom_self, unmatchedBefore_faultsFrom_self]
  | succ count ih =>
      cases ls with
      | nil => rfl
      | cons line ls =>
          have hnext : index + (count + 1) = index + 1 + count := by omega
          rw [List.take_succ_cons, faultsFrom, faultsFrom, hnext]
          split
          · simp only [unmatchedBefore, List.filter_cons] at ih ⊢
            rw [ih]
          · exact ih _ _ _ _

theorem unmatchedBefore_faults_congr {index : Nat} {text text' : List Char}
    (h : (Text.lines text).take index = (Text.lines text').take index) :
    unmatchedBefore index (faults text) = unmatchedBefore index (faults text') := by
  have htake := unmatchedBefore_faultsFrom_take 0 0 index ⟨0, 0, 0⟩
  rw [Nat.zero_add] at htake
  rw [faults, ← htake, h, htake, faults]

end FoamDict.Brace
