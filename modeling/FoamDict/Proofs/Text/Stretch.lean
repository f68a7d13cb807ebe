import Mathlib.Data.List.Pairwise
import FoamDict.Proofs.Text.Column
import FoamDict.Proofs.Text.Pattern
import FoamDict.Proofs.Text.Word

/-!
# How stretches of a line lie to each other

Two stretches that one scan takes lie apart. No word boundary lies inside a word, so a stretch with
word boundaries at both ends lies apart from a word or has all of it. A stretch that holds no quote
lies apart from one that begins and ends with a quote, or between the two. What holds of the places
of stretches holds of their columns.
-/

namespace FoamDict.Text

/-- A stretch is given by its start and its end, counted in characters or in columns. -/
def Apart (p q : Nat × Nat) : Prop := p.2 ≤ q.1 ∨ q.2 ≤ p.1

def Within (p q : Nat × Nat) : Prop := q.1 ≤ p.1 ∧ p.2 ≤ q.2

/-- The stretch `p` touches neither end of `q`. -/
def Inside (p q : Nat × Nat) : Prop := q.1 < p.1 ∧ p.2 < q.2

theorem Apart.symm {p q : Nat × Nat} (h : Apart p q) : Apart q p := Or.symm h

theorem Inside.within {p q : Nat × Nat} (h : Inside p q) : Within p q := ⟨h.1.le, h.2.le⟩

/-- The columns of a stretch of places. -/
def columns (line : List Char) (p : Nat × Nat) : Nat × Nat :=
  (units (line.take p.1), units (line.take p.2))

section Columns

variable {p q : Nat × Nat}

theorem Apart.columns (h : Apart p q) (line : List Char) :
    Apart (columns line p) (columns line q) :=
  h.imp (units_take_le_units_take · line) (units_take_le_units_take · line)

theorem Within.columns (h : Within p q) (line : List Char) :
    Within (columns line p) (columns line q) :=
  ⟨units_take_le_units_take h.1 line, units_take_le_units_take h.2 line⟩

theorem Inside.columns {line : List Char} (h : Inside p q) (hp : p.1 ≤ p.2)
    (hq : q.2 ≤ line.length) : Inside (columns line p) (columns line q) := by
  obtain ⟨hstart, hstop⟩ := h
  exact ⟨units_take_lt_units_take hstart (by omega), units_take_lt_units_take hstop (by omega)⟩

end Columns

variable {rule : LengthRule} {line : List Char} {c d : Cut} {p : Nat × Nat}

/-- Of two stretches that a scan takes, one ends before the other starts. -/
theorem apart_of_mem_cuts (hc : c ∈ cuts rule line) (hd : d ∈ cuts rule line) (hne : c ≠ d) :
    Apart c.places d.places := by
  have hpairwise : (cuts rule line).Pairwise fun a b => Apart a.places b.places := by
    refine (pairwise_cuts line).imp fun {a b} hprefix => Or.inl ?_
    have hlength := hprefix.length_le
    rwa [List.length_append] at hlength
  have hsymm : Std.Symm fun a b : Cut => Apart a.places b.places := ⟨fun _ _ => Apart.symm⟩
  exact hpairwise.forall hc hd hne

/-- The characters at the places of a cut are those of its text. -/
theorem exists_mem_text {place : Nat} (hc : c ∈ cuts rule line) (hstart : c.places.1 ≤ place)
    (hstop : place < c.places.2) : ∃ x ∈ c.text, (line.drop place).head? = some x := by
  obtain ⟨behind, hon⟩ := isOn_of_mem_cuts hc
  obtain ⟨k, rfl⟩ := Nat.exists_eq_add_of_le hstart
  have hk : k < c.text.length := Nat.lt_of_add_lt_add_left hstop
  refine ⟨c.text[k], List.getElem_mem hk, ?_⟩
  rw [List.head?_drop, hon.line_eq, Cut.places, List.getElem?_append_right (Nat.le_add_right _ _),
    Nat.add_sub_cancel_left, List.getElem?_append_left hk, List.getElem?_eq_getElem hk]

theorem sublist_of_within {rule' : LengthRule} (hc : c ∈ cuts rule line) (hd : d ∈ cuts rule' line)
    (h : Within c.places d.places) : c.text.Sublist d.text := by
  obtain ⟨_, hon⟩ := isOn_of_mem_cuts hc
  obtain ⟨_, hon'⟩ := isOn_of_mem_cuts hd
  rw [← Cut.extract_places hon.line_eq, ← Cut.extract_places hon'.line_eq,
    List.extract_eq_take_drop, List.extract_eq_take_drop, ← List.drop_take, ← List.drop_take]
  exact ((List.take_prefix_take_left h.2).sublist.drop _).trans
    (List.drop_sublist_drop_left _ h.1)

theorem not_boundaryAt_of_mem_words {place : Nat} (hc : c ∈ cuts wordLength line)
    (hstart : c.places.1 < place) (hstop : place < c.places.2) : ¬ boundaryAt line place := by
  obtain ⟨x, hx, hbefore⟩ := exists_mem_text hc (Nat.le_sub_one_of_lt hstart) (by omega)
  obtain ⟨y, hy, hbehind⟩ := exists_mem_text hc hstart.le hstop
  rw [List.head?_drop] at hbefore
  rw [boundaryAt, List.getLast?_take, if_neg (by omega), hbefore, hbehind, Option.some_or,
    isBoundary, Option.any_some, Option.any_some, isWordChar_of_mem_cut hc x hx,
    isWordChar_of_mem_cut hc y hy]
  exact Bool.false_ne_true

/-- A stretch between word boundaries takes in each word whole or not at all. -/
theorem apart_or_within_of_boundaries (hc : c ∈ cuts wordLength line)
    (hstart : boundaryAt line p.1) (hstop : boundaryAt line p.2) :
    Apart c.places p ∨ Within c.places p := by
  have hinside (place : Nat) (h : boundaryAt line place) :
      place ≤ c.places.1 ∨ c.places.2 ≤ place := by
    by_contra hnot
    rw [not_or, Nat.not_le, Nat.not_le] at hnot
    exact not_boundaryAt_of_mem_words hc hnot.1 hnot.2 h
  rcases hinside p.1 hstart with hfirst | hfirst
  · rcases hinside p.2 hstop with hlast | hlast
    · exact Or.inl (Or.inr hlast)
    · exact Or.inr ⟨hfirst, hlast⟩
  · exact Or.inl (Or.inl hfirst)

/-- A stretch without a mark lies apart from what begins and ends with the mark, or between the
two. -/
theorem apart_or_inside_of_not_mem {mark : Char} (hc : c ∈ cuts rule line) (hmark : mark ∉ c.text)
    (hstart : (line.drop p.1).head? = some mark) (hstop : (line.drop (p.2 - 1)).head? = some mark) :
    Apart c.places p ∨ Inside c.places p := by
  have houtside (place : Nat) (h : (line.drop place).head? = some mark) :
      place < c.places.1 ∨ c.places.2 ≤ place := by
    by_contra hnot
    rw [not_or, Nat.not_lt, Nat.not_le] at hnot
    obtain ⟨x, hx, hget⟩ := exists_mem_text hc hnot.1 hnot.2
    rw [h] at hget
    exact hmark (Option.some.inj hget ▸ hx)
  have hends := (Cut.places_of_mem hc).1
  rcases houtside p.1 hstart with hfirst | hfirst
  · rcases houtside (p.2 - 1) hstop with hlast | hlast
    · exact Or.inl (Or.inr (by omega))
    · exact Or.inr ⟨hfirst, by omega⟩
  · exact Or.inl (Or.inl hfirst)

end FoamDict.Text
