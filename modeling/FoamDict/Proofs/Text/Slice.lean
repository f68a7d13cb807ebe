import Mathlib.Data.List.Basic
import FoamDict.Text.Column

/-!
# Cutting a line

A line can be cut by byte offsets and by columns. Where the cut falls between characters, both give
the same characters: the offset of a place has a column, the bytes between two places are the
characters between them, and so are the UTF-16 units between the columns of the two.
-/

namespace FoamDict.Text

section Bytes

variable (before cs behind : List Char)

theorem beforeByte?_bytes_append :
    beforeByte? (bytes before) (before ++ behind) = some before := by
  induction before with
  | nil => simp [beforeByte?]
  | cons c before ih =>
      have hsucc : bytes (c :: before) = c.utf8Size + bytes before - 1 + 1 := by
        have hpos := c.utf8Size_pos
        rw [bytes_cons]
        omega
      have hrest : c.utf8Size + bytes before - 1 + 1 - c.utf8Size = bytes before := by
        have hpos := c.utf8Size_pos
        omega
      rw [hsucc, List.cons_append, beforeByte?, if_pos (by omega), hrest, ih, Option.map_some]

theorem bytes_eq_units_of_isAscii {cs : List Char} (h : isAscii cs) : bytes cs = units cs := by
  induction cs with
  | nil => rfl
  | cons c cs ih =>
      rw [isAscii, List.all_cons, Bool.and_eq_true, decide_eq_true_eq] at h
      have hsize : c.utf8Size = 1 := Char.utf8Size_eq_one_iff.mpr (Nat.le_of_lt_succ h.1)
      have hunit : unitsOf c = 1 := if_pos (UInt32.lt_trans h.1 (by decide))
      rw [bytes_cons, units_cons, hsize, hunit, ih h.2]

/-- The byte offset of a place between two characters is taken to its column. -/
theorem column?_bytes_append : column? (before ++ behind) (bytes before) = some (units before) := by
  rw [column?]
  split
  case isTrue h =>
      rw [isAscii, List.all_append, Bool.and_eq_true] at h
      rw [bytes_eq_units_of_isAscii h.1]
  case isFalse => rw [beforeByte?_bytes_append, Option.map_some]

theorem columnSpan?_bytes :
    columnSpan? (before ++ (cs ++ behind)) (bytes before) (bytes before + bytes cs) =
      some (units before, units cs) := by
  have hstop := column?_bytes_append (before ++ cs) behind
  rw [List.append_assoc, bytes_append, units_append] at hstop
  rw [columnSpan?, column?_bytes_append, hstop]
  simp

theorem slice?_bytes :
    slice? (before ++ (cs ++ behind)) ⟨bytes before, bytes before + bytes cs⟩ = some cs := by
  have hlast := beforeByte?_bytes_append (before ++ cs) behind
  rw [List.append_assoc, bytes_append] at hlast
  simp [slice?, beforeByte?_bytes_append, hlast]

end Bytes

/-- The UTF-16 units of a character. -/
def utf16Of (c : Char) : List Nat :=
  if c.val < 0x10000 then [c.toNat]
  else [0xd800 + (c.toNat - 0x10000) / 0x400, 0xdc00 + (c.toNat - 0x10000) % 0x400]

def utf16 (cs : List Char) : List Nat := cs.flatMap utf16Of

/-- Reads UTF-16 units; fails on a surrogate without its other half. -/
def ofUtf16? : List Nat → Option (List Char)
  | [] => some []
  | [u] => if u < 0xd800 ∨ 0xe000 ≤ u then some [Char.ofNat u] else none
  | u :: v :: us =>
    if u < 0xd800 ∨ 0xe000 ≤ u then (ofUtf16? (v :: us)).map (Char.ofNat u :: ·)
    else if u < 0xdc00 ∧ 0xdc00 ≤ v ∧ v < 0xe000 then
      (ofUtf16? us).map (Char.ofNat (0x10000 + (u - 0xd800) * 0x400 + (v - 0xdc00)) :: ·)
    else none

theorem length_utf16Of (c : Char) : (utf16Of c).length = unitsOf c := by
  rw [utf16Of, unitsOf]
  split <;> rfl

theorem length_utf16 (cs : List Char) : (utf16 cs).length = units cs := by
  induction cs with
  | nil => rfl
  | cons c cs ih => rw [utf16, List.flatMap_cons, List.length_append, length_utf16Of, units_cons,
      ← ih, utf16]

@[simp] theorem utf16_append (cs ds : List Char) : utf16 (cs ++ ds) = utf16 cs ++ utf16 ds :=
  List.flatMap_append

theorem ofUtf16?_utf16Of_append (c : Char) (us : List Nat) :
    ofUtf16? (utf16Of c ++ us) = (ofUtf16? us).map (c :: ·) := by
  have hvalid : c.toNat < 0xd800 ∨ 0xdfff < c.toNat ∧ c.toNat < 0x110000 := c.valid
  rw [utf16Of]
  by_cases hc : c.val < 0x10000
  · rw [if_pos hc]
    have hunit : c.toNat < 0xd800 ∨ 0xe000 ≤ c.toNat := by omega
    cases us with
    | nil => simp [ofUtf16?, hunit]
    | cons u us => simp [ofUtf16?, hunit]
  · rw [if_neg hc]
    have hlow : 0x10000 ≤ c.toNat := Nat.not_lt.mp hc
    have hhigh : ¬(0xd800 + (c.toNat - 0x10000) / 0x400 < 0xd800 ∨
        0xe000 ≤ 0xd800 + (c.toNat - 0x10000) / 0x400) := by omega
    have hpair : 0xd800 + (c.toNat - 0x10000) / 0x400 < 0xdc00 ∧
        0xdc00 ≤ 0xdc00 + (c.toNat - 0x10000) % 0x400 ∧
        0xdc00 + (c.toNat - 0x10000) % 0x400 < 0xe000 := by omega
    have hsum : 0x10000 + (0xd800 + (c.toNat - 0x10000) / 0x400 - 0xd800) * 0x400 +
        (0xdc00 + (c.toNat - 0x10000) % 0x400 - 0xdc00) = c.toNat := by omega
    rw [List.cons_append, List.singleton_append, ofUtf16?, if_neg hhigh, if_pos hpair, hsum,
      Char.ofNat_toNat]

theorem ofUtf16?_utf16 (cs : List Char) : ofUtf16? (utf16 cs) = some cs := by
  induction cs with
  | nil => simp [utf16, ofUtf16?]
  | cons c cs ih =>
      rw [utf16, List.flatMap_cons, ofUtf16?_utf16Of_append, ← utf16, ih, Option.map_some]

/-- The units between the columns of two places are read as the characters between them. -/
theorem ofUtf16?_take_drop_utf16 (before cs behind : List Char) :
    ofUtf16? (((utf16 (before ++ (cs ++ behind))).drop (units before)).take (units cs)) =
      some cs := by
  rw [utf16_append, List.drop_left' (length_utf16 before), utf16_append,
    List.take_left' (length_utf16 cs), ofUtf16?_utf16]

end FoamDict.Text
