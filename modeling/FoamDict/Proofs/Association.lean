import Mathlib.Data.List.Basic

/-!
# Association lists

What is found behind a key depends on the entries of that key alone, and the first of them counts.
-/

namespace FoamDict.Association

variable {κ α : Type} [BEq κ] [LawfulBEq κ] [DecidableEq κ] {key : κ} {entries : List (κ × α)}

theorem lookup_cons {other : κ} {value : α} :
    List.lookup key ((other, value) :: entries) =
      if key = other then some value else entries.lookup key := by
  rw [List.lookup_cons]
  by_cases h : key = other
  · simp [h]
  · rw [beq_false_of_ne h, if_neg h]

theorem lookup_filter_ne {other : κ} :
    (entries.filter (·.1 ≠ other)).lookup key =
      if key = other then none else entries.lookup key := by
  induction entries with
  | nil => simp
  | cons entry entries ih =>
      obtain ⟨k, value⟩ := entry
      by_cases hk : k = other
      · have hrest : ((k, value) :: entries).filter (·.1 ≠ other) =
            entries.filter (·.1 ≠ other) := by
          simp [hk]
        rw [hrest, ih, lookup_cons, hk]
        split_ifs <;> rfl
      · have hrest : ((k, value) :: entries).filter (·.1 ≠ other) =
            (k, value) :: entries.filter (·.1 ≠ other) := by
          simp [hk]
        rw [hrest, lookup_cons, lookup_cons, ih]
        by_cases hkey : key = k
        · rw [if_pos hkey, if_pos hkey, if_neg fun h => hk (hkey.symm.trans h)]
        · rw [if_neg hkey, if_neg hkey]

theorem isSome_lookup_iff : (entries.lookup key).isSome ↔ key ∈ entries.map (·.1) := by
  induction entries with
  | nil => simp
  | cons entry entries ih =>
      obtain ⟨k, value⟩ := entry
      rw [lookup_cons, List.map_cons, List.mem_cons, ← ih]
      split_ifs with h <;> simp [h]

/-- Keys with the values that are found for them. -/
theorem lookup_filterMap_pair {keys : List κ} {value? : κ → Option α} :
    (keys.filterMap fun k => (value? k).map (k, ·)).lookup key =
      if key ∈ keys then value? key else none := by
  induction keys with
  | nil => rfl
  | cons other keys ih =>
      rw [List.filterMap_cons]
      cases hvalue : value? other with
      | none =>
          rw [Option.map_none, ih]
          by_cases h : key = other <;> simp [h, hvalue]
      | some value =>
          rw [Option.map_some, lookup_cons, ih]
          by_cases h : key = other <;> simp [h, hvalue]

/-- Keys with one value. -/
theorem lookup_map_pair {keys : List κ} {value : α} :
    (keys.map (·, value)).lookup key = if key ∈ keys then some value else none := by
  have hmap : keys.map (·, value) = keys.filterMap fun k => (some value).map (k, ·) := by
    simp [List.filterMap_eq_map']
  rw [hmap, lookup_filterMap_pair]

/-- Where no two entries have one key, every entry is found behind its key. -/
theorem lookup_of_mem {value : α} (hkeys : (entries.map (·.1)).Nodup)
    (h : (key, value) ∈ entries) : entries.lookup key = some value := by
  induction entries with
  | nil => cases h
  | cons entry entries ih =>
      obtain ⟨k, v⟩ := entry
      rw [List.map_cons, List.nodup_cons] at hkeys
      rw [lookup_cons]
      rcases List.mem_cons.mp h with heq | hrest
      · obtain ⟨rfl, rfl⟩ := Prod.mk.inj heq
        rw [if_pos rfl]
      · have hne : key ≠ k := by
          rintro rfl
          exact hkeys.1 (List.mem_map.mpr ⟨_, hrest, rfl⟩)
        rw [if_neg hne, ih hkeys.2 hrest]

end FoamDict.Association
