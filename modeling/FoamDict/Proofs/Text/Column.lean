import Mathlib.Order.Bounds.Basic
import FoamDict.Text.Column

/-!
# Columns and leading characters

The characters that fit into a column are the longest leading stretch whose width is at most the
column. A wider column never fits fewer.
-/

namespace FoamDict.Text

@[simp] theorem fitting_nil (column : Nat) : fitting column [] = 0 := by unfold fitting; rfl

theorem fitting_cons_of_le {column : Nat} {c : Char} (h : unitsOf c ≤ column) (cs : List Char) :
    fitting column (c :: cs) = fitting (column - unitsOf c) cs + 1 := by
  rw [fitting, if_pos h]

theorem fitting_cons_of_lt {column : Nat} {c : Char} (h : column < unitsOf c) (cs : List Char) :
    fitting column (c :: cs) = 0 := by
  rw [fitting, if_neg (Nat.not_le.mpr h)]

theorem fitting_zero (cs : List Char) : fitting 0 cs = 0 := by
  cases cs with
  | nil => exact fitting_nil 0
  | cons c cs => exact fitting_cons_of_lt (unitsOf_pos c) cs

theorem fitting_mono {column column' : Nat} (h : column ≤ column') (cs : List Char) :
    fitting column cs ≤ fitting column' cs := by
  induction cs generalizing column column' with
  | nil => simp
  | cons c cs ih =>
      by_cases hc : unitsOf c ≤ column
      · rw [fitting_cons_of_le hc, fitting_cons_of_le (Nat.le_trans hc h)]
        exact Nat.succ_le_succ (ih (Nat.sub_le_sub_right h _))
      · rw [fitting_cons_of_lt (Nat.not_le.mp hc)]
        exact Nat.zero_le _

/-- Characters behind a stretch that fits are fitted into what is left of the column. -/
theorem fitting_append (column : Nat) (cs ds : List Char) :
    fitting column (cs ++ ds) =
      if units cs ≤ column then cs.length + fitting (column - units cs) ds
      else fitting column cs := by
  induction cs generalizing column with
  | nil => simp
  | cons c cs ih =>
      rw [List.cons_append, units_cons]
      by_cases hc : unitsOf c ≤ column
      · rw [fitting_cons_of_le hc, fitting_cons_of_le hc, ih]
        by_cases hcs : units cs ≤ column - unitsOf c
        · rw [if_pos hcs, if_pos (by omega), List.length_cons, Nat.sub_sub]
          omega
        · rw [if_neg hcs, if_neg (by omega)]
      · rw [fitting_cons_of_lt (Nat.not_le.mp hc), fitting_cons_of_lt (Nat.not_le.mp hc),
          if_neg (by omega)]

theorem fitting_of_units_le {column : Nat} {cs : List Char} (h : units cs ≤ column) :
    fitting column cs = cs.length := by
  simpa [h] using fitting_append column cs []

theorem units_take_fitting_le (column : Nat) (cs : List Char) :
    units (cs.take (fitting column cs)) ≤ column := by
  induction cs generalizing column with
  | nil => simp
  | cons c cs ih =>
      by_cases hc : unitsOf c ≤ column
      · have hrest := ih (column - unitsOf c)
        rw [fitting_cons_of_le hc, List.take_succ_cons, units_cons]
        omega
      · rw [fitting_cons_of_lt (Nat.not_le.mp hc)]
        exact Nat.zero_le _

theorem units_take_add (m n : Nat) (cs : List Char) :
    units (cs.take (m + n)) = units (cs.take m) + units ((cs.drop m).take n) := by
  rw [List.take_add, units_append]

theorem units_take_le_units_take {m n : Nat} (h : m ≤ n) (cs : List Char) :
    units (cs.take m) ≤ units (cs.take n) := by
  obtain ⟨k, rfl⟩ := Nat.exists_eq_add_of_le h
  rw [units_take_add]
  exact Nat.le_add_right _ _

/-- A later place of a line has a later column. -/
theorem units_take_lt_units_take {m n : Nat} {cs : List Char} (h : m < n) (hm : m < cs.length) :
    units (cs.take m) < units (cs.take n) := by
  have hnext : units (cs.take m) < units (cs.take (m + 1)) := by
    rw [List.take_succ_eq_append_getElem hm, units_append]
    exact Nat.lt_add_of_pos_right (Nat.lt_of_lt_of_le (unitsOf_pos _) (Nat.le_add_right _ _))
  exact hnext.trans_le (units_take_le_units_take h cs)

theorem le_fitting {column k : Nat} {cs : List Char} (hk : k ≤ cs.length)
    (h : units (cs.take k) ≤ column) : k ≤ fitting column cs := by
  induction cs generalizing column k with
  | nil => rwa [fitting_nil]
  | cons c cs ih =>
      cases k with
      | zero => exact Nat.zero_le _
      | succ k =>
          rw [List.take_succ_cons, units_cons] at h
          have hrest : k ≤ fitting (column - unitsOf c) cs :=
            ih (Nat.le_of_succ_le_succ hk) (by omega)
          rw [fitting_cons_of_le (by omega)]
          exact Nat.succ_le_succ hrest

/-- What fits into a column is the largest number of leading characters no wider than it. -/
theorem isGreatest_fitting (column : Nat) (cs : List Char) :
    IsGreatest {k | k ≤ cs.length ∧ units (cs.take k) ≤ column} (fitting column cs) :=
  ⟨⟨fitting_le_length column cs, units_take_fitting_le column cs⟩, fun _ hk => le_fitting hk.1 hk.2⟩

end FoamDict.Text
