import Mathlib.Data.List.TakeWhile
import FoamDict.Proofs.Highlight.Source
import FoamDict.Proofs.Text.Word

/-!
# What found stretches are made of

A word is made of word characters, a numeral of digits, signs, points and exponent letters, and a
quotation ends in the quote that closes it. So nothing that is found ends in a carriage return.
-/

namespace FoamDict.Highlight

open FoamDict.Text

theorem take_length_takeWhile (p : Char → Bool) (cs : List Char) :
    cs.take (cs.takeWhile p).length = cs.takeWhile p :=
  (List.prefix_iff_eq_take.mp (List.takeWhile_prefix p)).symm

theorem drop_length_takeWhile (p : Char → Bool) (cs : List Char) :
    cs.drop (cs.takeWhile p).length = cs.dropWhile p := by
  have hsplit := List.takeWhile_append_dropWhile (p := p) (l := cs)
  exact (congrArg (List.drop _) hsplit.symm).trans List.drop_left

namespace Numeral

/-- The characters that occur in numerals. -/
def isPart (c : Char) : Bool := c.isDigit || ['+', '-', '.', 'e', 'E'].contains c

variable {cs : List Char} {n : Nat}

theorem all_isPart_take_add {a b : Nat} (ha : (cs.take a).all isPart)
    (hb : ((cs.drop a).take b).all isPart) : (cs.take (a + b)).all isPart := by
  rw [List.take_add, List.all_append, ha, hb]
  rfl

theorem all_isPart_digits (cs : List Char) : (cs.take (digits cs)).all isPart := by
  rw [digits, take_length_takeWhile, List.all_eq_true]
  intro c hc
  rw [isPart, List.mem_takeWhile_imp hc, Bool.true_or]

theorem all_isPart_sign (cs : List Char) : (cs.take (signLength cs)).all isPart := by
  cases cs with
  | nil => rfl
  | cons c cs =>
      rw [signLength]
      split
      case isTrue h => rcases h with rfl | rfl <;> rfl
      case isFalse => rfl

/-- A mantissa is a run of digits, alone or with a point, and digits behind the point. -/
theorem of_mem_mantissaLengths (h : n ∈ mantissaLengths cs) :
    n = digits cs ∨ ∃ rest, cs.drop (digits cs) = '.' :: rest ∧
      (n = digits cs + 1 ∨ n = digits cs + (1 + digits rest)) := by
  rw [digits, drop_length_takeWhile, ← digits]
  rw [mantissaLengths] at h
  -- By whether digits stand at the place and whether a point follows them.
  split at h
  case h_1 rest hdigits hrest =>
    rw [hdigits, hrest]
    split at h
    · cases h
    · exact Or.inr ⟨rest, rfl, Or.inr (by simp at h; omega)⟩
  case h_2 => cases h
  case h_3 rest hrest _ =>
    rw [hrest]
    split at h
    · simp only [List.mem_cons, List.not_mem_nil, or_false] at h
      rcases h with rfl | rfl
      · exact Or.inr ⟨rest, rfl, Or.inl rfl⟩
      · exact Or.inl rfl
    · simp only [List.mem_cons, List.not_mem_nil, or_false] at h
      rcases h with rfl | rfl | rfl
      · exact Or.inr ⟨rest, rfl, Or.inr (Nat.add_assoc _ _ _)⟩
      · exact Or.inr ⟨rest, rfl, Or.inl rfl⟩
      · exact Or.inl rfl
  case h_4 => exact Or.inl (List.mem_singleton.mp h)

theorem all_isPart_mantissa (h : n ∈ mantissaLengths cs) : (cs.take n).all isPart := by
  have hpoint (rest : List Char) : (('.' :: rest).take 1).all isPart := rfl
  rcases of_mem_mantissaLengths h with rfl | ⟨rest, hrest, rfl | rfl⟩
  · exact all_isPart_digits cs
  · refine all_isPart_take_add (all_isPart_digits cs) ?_
    rw [hrest]
    exact hpoint rest
  · refine all_isPart_take_add (all_isPart_digits cs) ?_
    rw [hrest]
    exact all_isPart_take_add (hpoint rest) (all_isPart_digits rest)

theorem all_isPart_exponent (cs : List Char) : (cs.take (exponentLength cs)).all isPart := by
  cases cs with
  | nil => rfl
  | cons c cs =>
      rw [exponentLength]
      split
      case isFalse => rfl
      case isTrue hc =>
        have hletter : ((c :: cs).take 1).all isPart := by rcases hc with rfl | rfl <;> rfl
        dsimp only
        split
        · rfl
        · refine all_isPart_take_add (all_isPart_take_add hletter (all_isPart_sign cs)) ?_
          rw [Nat.add_comm 1, List.drop_succ_cons]
          exact all_isPart_digits _

theorem of_mem_readings (h : n ∈ readings cs) :
    ∃ mantissa ∈ mantissaLengths (cs.drop (signLength cs)),
      n = signLength cs + mantissa ∨
        n = signLength cs + mantissa + exponentLength (cs.drop (signLength cs + mantissa)) := by
  obtain ⟨mantissa, hmantissa, hn⟩ := List.mem_flatMap.mp h
  refine ⟨mantissa, hmantissa, ?_⟩
  dsimp only at hn
  split at hn
  · exact Or.inl (List.mem_singleton.mp hn)
  · simp only [List.mem_cons, List.not_mem_nil, or_false] at hn
    exact hn.symm

theorem all_isPart_reading (h : n ∈ readings cs) : (cs.take n).all isPart := by
  obtain ⟨mantissa, hmantissa, hn⟩ := of_mem_readings h
  have hbare := all_isPart_take_add (all_isPart_sign cs) (all_isPart_mantissa hmantissa)
  rcases hn with rfl | rfl
  · exact hbare
  · exact all_isPart_take_add hbare (all_isPart_exponent _)

theorem lengthAt_mem_readings {before : Option Char} (h : lengthAt before cs ≠ 0) :
    lengthAt before cs ∈ readings cs := by
  rw [lengthAt] at h ⊢
  split at h
  case isFalse => exact absurd rfl h
  case isTrue hstart =>
    rw [if_pos hstart]
    cases hfind : (readings cs).find? (endsAtBoundary cs) with
    | none => exact absurd (by rw [hfind, Option.getD_none]) h
    | some n => exact List.mem_of_find?_eq_some hfind

end Numeral

theorem isPart_of_mem_cut {line : List Char} {c : Cut} (h : c ∈ cuts Numeral.lengthAt line) :
    ∀ d ∈ c.text, Numeral.isPart d := by
  obtain ⟨behind, hon⟩ := isOn_of_mem_cuts h
  have hall := Numeral.all_isPart_reading (Numeral.lengthAt_mem_readings hon.length_ne_zero)
  rw [← hon.text_eq, List.all_eq_true] at hall
  exact hall

namespace Quotation

theorem getLast?_take_closing {cs : List Char} {n : Nat} (h : closing? cs = some n) :
    (cs.take n).getLast? = some '"' := by
  fun_induction closing? cs generalizing n with
  | case1 => cases h
  | case2 => cases h
  | case3 c cs ih =>
      obtain ⟨m, hm, rfl⟩ := Option.map_eq_some_iff.mp h
      rw [List.take_succ_cons, List.take_succ_cons, List.getLast?_cons, List.getLast?_cons, ih hm]
      rfl
  | case4 cs =>
      obtain rfl := Option.some.inj h
      rfl
  | case5 c cs _ _ _ ih =>
      obtain ⟨m, hm, rfl⟩ := Option.map_eq_some_iff.mp h
      rw [List.take_succ_cons, List.getLast?_cons, ih hm]
      rfl

theorem getLast?_take_lengthAt {before : Option Char} {cs : List Char}
    (h : lengthAt before cs ≠ 0) : (cs.take (lengthAt before cs)).getLast? = some '"' := by
  unfold lengthAt at h ⊢
  split at h
  case h_1 cs =>
    cases hclosing : closing? cs with
    | none => exact absurd (by rw [hclosing]; rfl) h
    | some n =>
        rw [Option.map_some, Option.getD_some, List.take_succ_cons, List.getLast?_cons,
          getLast?_take_closing hclosing, Option.getD_some]
  case h_2 => exact absurd rfl h

end Quotation

theorem getLast?_of_mem_cut {line : List Char} {c : Cut} (h : c ∈ cuts Quotation.lengthAt line) :
    c.text.getLast? = some '"' := by
  obtain ⟨behind, hon⟩ := isOn_of_mem_cuts h
  rw [hon.text_eq]
  exact Quotation.getLast?_take_lengthAt hon.length_ne_zero

theorem getLast?_ne_return_of_mem_words {line : List Char} {c : Cut}
    (h : c ∈ cuts wordLength line) : c.text.getLast? ≠ some '\r' := fun hlast =>
  absurd (isWordChar_of_mem_cut h '\r' (List.mem_of_getLast? hlast)) (by decide)

theorem Found.getLast?_ne_return {catalog : Keyword.Catalog} {line : List Char}
    {category : Category} {c : Cut} (h : Found catalog line category c) :
    c.text.getLast? ≠ some '\r' := by
  intro hlast
  cases h with
  | word hc _ => exact getLast?_ne_return_of_mem_words hc hlast
  | numeral hc => exact absurd (isPart_of_mem_cut hc '\r' (List.mem_of_getLast? hlast)) (by decide)
  | quotation hc => exact absurd ((getLast?_of_mem_cut hc).symm.trans hlast) (by decide)

end FoamDict.Highlight
