import Mathlib.Order.Bounds.Basic
import FoamDict.Proofs.Text.Scan

/-!
# Leftmost longest stretches

Of all the stretches that fit on a line, a scan is to take the one that starts first and of those
with that start the longest, and to go on behind it. There is only one way to do so, and a scan does
it if its rule gives the length of the longest stretch at each place.
-/

namespace FoamDict.Text

/-- The stretches that are taken from a place on, each with its start and its end. -/
inductive LeftmostLongest (fits : Nat → Nat → Prop) : Nat → List (Nat × Nat) → Prop
  | done {place : Nat} (h : ∀ start stop, place ≤ start → ¬ fits start stop) :
      LeftmostLongest fits place []
  | next {place start stop : Nat} {rest : List (Nat × Nat)}
      (hstart : IsLeast {s | place ≤ s ∧ ∃ t, fits s t} start)
      (hstop : IsGreatest {t | fits start t} stop) (hrest : LeftmostLongest fits stop rest) :
      LeftmostLongest fits place ((start, stop) :: rest)

namespace LeftmostLongest

variable {fits : Nat → Nat → Prop} {place : Nat} {taken taken' : List (Nat × Nat)}

theorem unique (h : LeftmostLongest fits place taken) (h' : LeftmostLongest fits place taken') :
    taken = taken' := by
  induction h generalizing taken' with
  | done hnone =>
      cases h' with
      | done => rfl
      | next hstart hstop _ => exact absurd hstop.1 (hnone _ _ hstart.1.1)
  | next hstart hstop _ ih =>
      cases h' with
      | done hnone => exact absurd hstop.1 (hnone _ _ hstart.1.1)
      | next hstart' hstop' hrest' =>
          obtain rfl := hstart.unique hstart'
          obtain rfl := hstop.unique hstop'
          rw [ih hrest']

/-- Where nothing fits, the search moves on by one place. -/
theorem of_succ (h : LeftmostLongest fits (place + 1) taken) (hnone : ∀ stop, ¬ fits place stop) :
    LeftmostLongest fits place taken := by
  have hbehind {start stop : Nat} (hplace : place ≤ start) (hfits : fits start stop) :
      place + 1 ≤ start := by
    rcases Nat.eq_or_lt_of_le hplace with rfl | hlt
    · exact absurd hfits (hnone stop)
    · exact hlt
  cases h with
  | done h => exact .done fun start stop hplace hfits => h start stop (hbehind hplace hfits) hfits
  | next hstart hstop hrest =>
      refine .next ⟨⟨Nat.le_of_succ_le hstart.1.1, hstart.1.2⟩, fun s hs => ?_⟩ hstop hrest
      obtain ⟨hplace, stop, hfits⟩ := hs
      exact hstart.2 ⟨hbehind hplace hfits, stop, hfits⟩

end LeftmostLongest

/-- The start and the end of a cut, counted in characters. -/
def Cut.places (c : Cut) : Nat × Nat := (c.before.length, c.before.length + c.text.length)

section Places

variable {line behind : List Char} {c : Cut} (h : line = c.before ++ (c.text ++ behind))

include h

theorem Cut.take_places : line.take c.places.1 = c.before := by
  rw [h, Cut.places, List.take_left]

theorem Cut.extract_places : line.extract c.places.1 c.places.2 = c.text := by
  rw [List.extract_eq_take_drop, h, Cut.places, List.drop_left, Nat.add_sub_cancel_left,
    List.take_left]

end Places

theorem Cut.places_of_mem {rule : LengthRule} {line : List Char} {c : Cut}
    (h : c ∈ cuts rule line) : c.places.1 < c.places.2 ∧ c.places.2 ≤ line.length := by
  obtain ⟨behind, hon⟩ := isOn_of_mem_cuts h
  have hpos := List.length_pos_of_ne_nil hon.text_ne_nil
  have hlength := congrArg List.length hon.line_eq
  rw [List.length_append, List.length_append] at hlength
  simp only [Cut.places]
  omega

/-- A rule gives the length of the longest stretch that fits at each place of a line. -/
structure GivesLongest (rule : LengthRule) (fits : Nat → Nat → Prop) (line : List Char) : Prop where
  bounds : ∀ start stop, fits start stop → start < stop ∧ stop ≤ line.length
  nothing : ∀ before rest, line = before ++ rest → rule before.getLast? rest = 0 →
    ∀ stop, ¬ fits before.length stop
  longest : ∀ before rest, line = before ++ rest → rule before.getLast? rest ≠ 0 →
    IsGreatest {stop | fits before.length stop} (before.length + rule before.getLast? rest)

namespace GivesLongest

variable {rule : LengthRule} {fits : Nat → Nat → Prop} {line : List Char}

theorem leftmostLongest_cutsFrom (h : GivesLongest rule fits line) (before : List Char) (skip : Nat)
    (cs : List Char) (hline : line = before ++ cs) :
    LeftmostLongest fits (before.length + skip)
      ((cutsFrom rule before skip cs).map Cut.places) := by
  induction cs generalizing before skip with
  | nil =>
      have hcuts : cutsFrom rule before skip [] = [] := by cases skip <;> rfl
      rw [hcuts]
      refine .done fun start stop hplace hfits => ?_
      have hbounds := h.bounds start stop hfits
      rw [hline, List.append_nil] at hbounds
      omega
  | cons c cs ih =>
      have hnext (k : Nat) := ih (before ++ [c]) k (by simpa using hline)
      simp only [List.length_append, List.length_singleton, Nat.add_assoc, Nat.add_comm 1] at hnext
      cases skip with
      | succ skip => exact hnext skip
      | zero =>
          rw [cutsFrom]
          cases hrule : rule before.getLast? (c :: cs) with
          | zero => exact (hnext 0).of_succ (h.nothing before _ hline hrule)
          | succ n =>
              have hlongest := h.longest before _ hline (by rw [hrule]; exact Nat.succ_ne_zero n)
              rw [hrule] at hlongest
              have hlength : n ≤ cs.length := by
                have hstop := (h.bounds _ _ hlongest.1).2
                rw [hline, List.length_append, List.length_cons] at hstop
                omega
              have hplaces : Cut.places ⟨before, c :: cs.take n⟩ =
                  (before.length, before.length + (n + 1)) := by
                rw [Cut.places, List.length_cons, List.length_take_of_le hlength]
              rw [List.map_cons, hplaces]
              exact .next ⟨⟨Nat.le_refl _, _, hlongest.1⟩, fun s hs => hs.1⟩ hlongest (hnext n)

theorem fits_of_mem_cuts (h : GivesLongest rule fits line) {c : Cut} (hc : c ∈ cuts rule line) :
    fits c.places.1 c.places.2 := by
  obtain ⟨behind, hon⟩ := isOn_of_mem_cuts hc
  have hlongest := h.longest c.before (c.text ++ behind) hon.line_eq hon.length_ne_zero
  have hbounds := (h.bounds _ _ hlongest.1).2
  rw [hon.line_eq, List.length_append, Nat.add_le_add_iff_left] at hbounds
  have hlength : c.text.length = rule c.before.getLast? (c.text ++ behind) := by
    conv_lhs => rw [hon.text_eq]
    exact List.length_take_of_le hbounds
  rw [Cut.places, hlength]
  exact hlongest.1

/-- The scan takes the leftmost longest stretches of the line, and no other list is that. -/
theorem leftmostLongest_iff (h : GivesLongest rule fits line) (taken : List (Nat × Nat)) :
    LeftmostLongest fits 0 taken ↔ taken = (cuts rule line).map Cut.places := by
  have hcuts := h.leftmostLongest_cutsFrom [] 0 line rfl
  constructor
  · exact fun htaken => htaken.unique hcuts
  · rintro rfl
    exact hcuts

end GivesLongest

end FoamDict.Text
