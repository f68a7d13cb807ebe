import FoamDict.Proofs.Text.Scan
import FoamDict.Proofs.Text.Slice

/-!
# Columns of byte offsets

An offset between two characters is the size of the characters before it, and what is before the
smaller of two offsets begins what is before the greater. So columns grow with offsets, whether they
are counted from the characters or, on an ASCII line, taken from the offset itself; and the columns
of two offsets are as far apart as the characters between them are wide.
-/

namespace FoamDict.Text

/-- An offset between two characters of a line, or at its start or its end. -/
def IsCharBoundary (line : List Char) (offset : Nat) : Prop :=
  ∃ before, before <+: line ∧ bytes before = offset

theorem unitsOf_le_utf8Size (c : Char) : unitsOf c ≤ c.utf8Size := by
  have hpos := c.utf8Size_pos
  rw [unitsOf]
  split_ifs with hbasic
  · exact hpos
  · have hsize : c.utf8Size ≠ 1 := fun h =>
      hbasic (UInt32.lt_of_le_of_lt (Char.utf8Size_eq_one_iff.mp h) (by decide))
    omega

theorem units_le_bytes (cs : List Char) : units cs ≤ bytes cs := by
  induction cs with
  | nil => exact Nat.le_refl 0
  | cons c cs ih => exact Nat.add_le_add (unitsOf_le_utf8Size c) ih

variable {line before before' : List Char}

/-- What is before the smaller of two offsets begins what is before the greater. -/
theorem isPrefix_of_bytes_le (h : before <+: line) (h' : before' <+: line)
    (hle : bytes before ≤ bytes before') : before <+: before' := by
  rcases List.prefix_or_prefix_of_prefix h h' with hprefix | ⟨cs, rfl⟩
  · exact hprefix
  · -- The other way round nothing can be left over: it would take bytes.
    have hcs : cs = [] := by
      by_contra hne
      have hpos : 0 < bytes cs := Nat.lt_of_lt_of_le (units_pos hne) (units_le_bytes cs)
      rw [bytes_append] at hle
      omega
    simp [hcs]

theorem units_lt_of_bytes_lt (h : before <+: line) (h' : before' <+: line)
    (hlt : bytes before < bytes before') : units before < units before' := by
  obtain ⟨cs, rfl⟩ := isPrefix_of_bytes_le h h' (Nat.le_of_lt hlt)
  have hcs : cs ≠ [] := by
    rintro rfl
    rw [List.append_nil] at hlt
    exact Nat.lt_irrefl _ hlt
  rw [units_append]
  exact Nat.lt_add_of_pos_right (units_pos hcs)

theorem column?_of_isPrefix (h : before <+: line) :
    column? line (bytes before) = some (units before) := by
  obtain ⟨behind, rfl⟩ := h
  exact column?_bytes_append before behind

theorem beforeByte?_of_isPrefix (h : before <+: line) :
    beforeByte? (bytes before) line = some before := by
  obtain ⟨behind, rfl⟩ := h
  exact beforeByte?_bytes_append before behind

/-- The column of an offset between characters is the width of what is before it, on any line. It
grows with the offset and is never greater, and between two offsets it grows by the width of what
is between them. -/
theorem column_counts_units (line : List Char) :
    (∀ b, IsCharBoundary line b → column? line b = (beforeByte? b line).map units) ∧
    (∀ before, before <+: line →
      column? line (bytes before) = some (units before) ∧ units before ≤ bytes before) ∧
    (column? line 0 = some 0 ∧ column? line (bytes line) = some (units line)) ∧
    (∀ a b, IsCharBoundary line a → IsCharBoundary line b → a < b →
      ∃ m n, column? line a = some m ∧ column? line b = some n ∧ m < n) ∧
    ∀ a b, IsCharBoundary line a → IsCharBoundary line b → a ≤ b →
      ∃ before cs, before ++ cs <+: line ∧ bytes before = a ∧ bytes (before ++ cs) = b ∧
        slice? line ⟨a, b⟩ = some cs ∧ columnSpan? line a b = some (units before, units cs) := by
  refine ⟨?_, fun before h => ⟨column?_of_isPrefix h, units_le_bytes before⟩,
    ⟨column?_of_isPrefix List.nil_prefix, column?_of_isPrefix (List.prefix_refl line)⟩, ?_, ?_⟩
  · rintro b ⟨before, h, rfl⟩
    rw [column?_of_isPrefix h, beforeByte?_of_isPrefix h, Option.map_some]
  · rintro a b ⟨before, h, rfl⟩ ⟨before', h', rfl⟩ hlt
    exact ⟨units before, units before', column?_of_isPrefix h, column?_of_isPrefix h',
      units_lt_of_bytes_lt h h' hlt⟩
  · rintro a b ⟨before, h, rfl⟩ ⟨before', h', rfl⟩ hle
    obtain ⟨cs, rfl⟩ := isPrefix_of_bytes_le h h' hle
    refine ⟨before, cs, h', rfl, rfl, ?_⟩
    obtain ⟨behind, rfl⟩ := h'
    rw [bytes_append, List.append_assoc]
    exact ⟨slice?_bytes before cs behind, columnSpan?_bytes before cs behind⟩

/-- Behind a letter of two bytes and one of four. -/
theorem column_counts_units_around_astral :
    IsCharBoundary ['Θ', '𝑥', '1'] 2 ∧ IsCharBoundary ['Θ', '𝑥', '1'] 6 ∧
      (∃ m n, column? ['Θ', '𝑥', '1'] 2 = some m ∧ column? ['Θ', '𝑥', '1'] 6 = some n ∧ m < n) ∧
      ∃ before cs, before ++ cs <+: ['Θ', '𝑥', '1'] ∧ bytes before = 2 ∧ bytes (before ++ cs) = 6 ∧
        slice? ['Θ', '𝑥', '1'] ⟨2, 6⟩ = some cs ∧
        columnSpan? ['Θ', '𝑥', '1'] 2 6 = some (units before, units cs) := by
  have hfirst : IsCharBoundary ['Θ', '𝑥', '1'] 2 := ⟨['Θ'], ⟨_, rfl⟩, rfl⟩
  have hlast : IsCharBoundary ['Θ', '𝑥', '1'] 6 := ⟨['Θ', '𝑥'], ⟨_, rfl⟩, rfl⟩
  obtain ⟨-, -, -, hgrow, hspan⟩ := column_counts_units ['Θ', '𝑥', '1']
  exact ⟨hfirst, hlast, hgrow 2 6 hfirst hlast (by decide), hspan 2 6 hfirst hlast (by decide)⟩

end FoamDict.Text
