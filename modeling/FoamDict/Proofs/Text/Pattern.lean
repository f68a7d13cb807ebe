import Mathlib.Computability.Language
import Mathlib.Data.List.TakeWhile
import FoamDict.Proofs.Text.Leftmost
import FoamDict.Text.Word

/-!
# Patterns and their backtracking search

A pattern stands for a language, and a backtracking search tries what the pattern can take at a
place in an order of preference: a long run before a shorter one, the first alternative before the
second. What is tried first need not be the longest. It is if what follows a part never starts with
a character that the part could have taken itself, and if of two alternatives the first takes
something and starts differently from the second.
-/

namespace FoamDict.Text

inductive Pattern
  | empty
  | one (accepts : Char → Bool)
  /-- One character or more, and as many as possible first. -/
  | run (accepts : Char → Bool)
  | seq (p q : Pattern)
  | alt (p q : Pattern)

namespace Pattern

/-- A part that may be missing, and is taken rather than left out. -/
def optional (p : Pattern) : Pattern := .alt p .empty

def language : Pattern → Language Char
  | empty => 1
  | one accepts => {cs | ∃ c, accepts c ∧ cs = [c]}
  | run accepts => {cs | cs ≠ [] ∧ ∀ c ∈ cs, accepts c}
  | seq p q => p.language * q.language
  | alt p q => p.language + q.language

/-- The lengths that the pattern can take at a place, in the order in which they are tried. -/
def tries : Pattern → List Char → List Nat
  | empty, _ => [0]
  | one _, [] => []
  | one accepts, c :: _ => if accepts c then [1] else []
  | run accepts, cs => (List.range' 1 (cs.takeWhile accepts).length).reverse
  | seq p q, cs => (p.tries cs).flatMap fun n => (q.tries (cs.drop n)).map (n + ·)
  | alt p q, cs => p.tries cs ++ q.tries cs

theorem le_length_takeWhile_iff (accepts : Char → Bool) (cs : List Char) (n : Nat) :
    n ≤ (cs.takeWhile accepts).length ↔ n ≤ cs.length ∧ ∀ c ∈ cs.take n, accepts c := by
  induction cs generalizing n with
  | nil => simp
  | cons c cs ih =>
      cases n with
      | zero => simp
      | succ n =>
          by_cases hc : accepts c
          · simp [hc, ih]
          · simp [hc]

theorem mem_tries_one_iff (accepts : Char → Bool) (cs : List Char) (n : Nat) :
    n ∈ (one accepts).tries cs ↔ ∃ c rest, cs = c :: rest ∧ accepts c ∧ n = 1 := by
  cases cs with
  | nil => simp [tries]
  | cons c cs =>
      rw [tries]
      by_cases hc : accepts c <;> simp [hc]

theorem mem_tries_run_iff (accepts : Char → Bool) (cs : List Char) (n : Nat) :
    n ∈ (run accepts).tries cs ↔ n ≠ 0 ∧ n ≤ (cs.takeWhile accepts).length := by
  rw [tries, List.mem_reverse, List.mem_range'_1]
  omega

/-- The two parts of what is taken stand one behind the other. -/
theorem eq_take_of_append_eq_take {cs u v : List Char} {n : Nat} (h : u ++ v = cs.take n)
    (hn : n ≤ cs.length) :
    u = cs.take u.length ∧ v = (cs.drop u.length).take v.length ∧ u.length + v.length = n := by
  have hcs : cs = u ++ (v ++ cs.drop n) := by
    rw [← List.append_assoc, h, List.take_append_drop]
  have hlength := congrArg List.length h
  rw [List.length_append, List.length_take_of_le hn] at hlength
  have hdrop : cs.drop u.length = v ++ cs.drop n := by
    conv_lhs => rw [hcs, List.drop_left]
  refine ⟨?_, ?_, hlength⟩
  · conv_rhs => rw [hcs, List.take_left]
  · rw [hdrop, List.take_left]

/-- What is tried is what the language of the pattern allows. -/
theorem mem_tries_iff (p : Pattern) (cs : List Char) (n : Nat) :
    n ∈ p.tries cs ↔ n ≤ cs.length ∧ cs.take n ∈ p.language := by
  induction p generalizing cs n with
  | empty =>
      rw [tries, language, List.mem_singleton, Language.mem_one, List.take_eq_nil_iff]
      constructor
      · rintro rfl
        exact ⟨Nat.zero_le _, Or.inl rfl⟩
      · rintro ⟨hn, rfl | rfl⟩
        · rfl
        · exact Nat.le_zero.mp hn
  | one accepts =>
      rw [mem_tries_one_iff]
      constructor
      · rintro ⟨c, rest, rfl, hc, rfl⟩
        exact ⟨Nat.succ_le_succ (Nat.zero_le _), c, hc, rfl⟩
      · rintro ⟨hn, c, hc, htake⟩
        have hlength := congrArg List.length htake
        rw [List.length_take_of_le hn, List.length_singleton] at hlength
        subst hlength
        cases cs with
        | nil => cases htake
        | cons d rest =>
            obtain rfl := (List.cons.inj htake).1
            exact ⟨d, rest, rfl, hc, rfl⟩
  | run accepts =>
      rw [mem_tries_run_iff, le_length_takeWhile_iff]
      have hempty (hn : n ≤ cs.length) : cs.take n = [] ↔ n = 0 := by
        rw [← List.length_eq_zero_iff, List.length_take_of_le hn]
      constructor
      · rintro ⟨hne, hlength, hall⟩
        exact ⟨hlength, mt (hempty hlength).mp hne, hall⟩
      · rintro ⟨hlength, hne, hall⟩
        exact ⟨mt (hempty hlength).mpr hne, hlength, hall⟩
  | seq p q ihp ihq =>
      rw [tries, language, List.mem_flatMap, Language.mem_mul]
      constructor
      · rintro ⟨a, ha, hn⟩
        obtain ⟨b, hb, rfl⟩ := List.mem_map.mp hn
        obtain ⟨halength, hamem⟩ := (ihp _ _).mp ha
        obtain ⟨hblength, hbmem⟩ := (ihq _ _).mp hb
        rw [List.length_drop] at hblength
        exact ⟨by omega, _, hamem, _, hbmem, List.take_add.symm⟩
      · rintro ⟨hlength, u, hu, v, hv, huv⟩
        obtain ⟨htake, htake', hsum⟩ := eq_take_of_append_eq_take huv hlength
        have hua : u.length ∈ p.tries cs := (ihp _ _).mpr ⟨by omega, htake ▸ hu⟩
        have hvb : v.length ∈ q.tries (cs.drop u.length) := by
          refine (ihq _ _).mpr ⟨?_, htake' ▸ hv⟩
          rw [List.length_drop]
          omega
        exact ⟨u.length, hua, List.mem_map.mpr ⟨v.length, hvb, hsum⟩⟩
  | alt p q ihp ihq =>
      rw [tries, language, List.mem_append, Language.mem_add, ihp, ihq, and_or_left]

/-- The pattern can take nothing. -/
def nullable : Pattern → Bool
  | empty => true
  | one _ | run _ => false
  | seq p q => p.nullable && q.nullable
  | alt p q => p.nullable || q.nullable

/-- The characters with which something that the pattern takes can start. -/
def starts : Pattern → Char → Bool
  | empty, _ => false
  | one accepts, c | run accepts, c => accepts c
  | seq p q, c => p.starts c || p.nullable && q.starts c
  | alt p q, c => p.starts c || q.starts c

/-- The characters with which something that the pattern takes can end. -/
def ends : Pattern → Char → Bool
  | empty, _ => false
  | one accepts, c | run accepts, c => accepts c
  | seq p q, c => q.ends c || q.nullable && p.ends c
  | alt p q, c => p.ends c || q.ends c

/-- The characters that the pattern can take. -/
def uses : Pattern → Char → Bool
  | empty, _ => false
  | one accepts, c | run accepts, c => accepts c
  | seq p q, c | alt p q, c => p.uses c || q.uses c

theorem nullable_iff (p : Pattern) : p.nullable ↔ [] ∈ p.language := by
  induction p with
  | empty => exact iff_of_true rfl (Language.nil_mem_one)
  | one accepts =>
      refine iff_of_false Bool.false_ne_true ?_
      rintro ⟨c, -, hc⟩
      cases hc
  | run accepts => exact iff_of_false Bool.false_ne_true fun h => h.1 rfl
  | seq p q ihp ihq =>
      rw [nullable, language, Bool.and_eq_true, ihp, ihq, Language.mem_mul]
      constructor
      · exact fun h => ⟨[], h.1, [], h.2, rfl⟩
      · rintro ⟨u, hu, v, hv, huv⟩
        obtain ⟨rfl, rfl⟩ := List.append_eq_nil_iff.mp huv
        exact ⟨hu, hv⟩
  | alt p q ihp ihq => rw [nullable, language, Bool.or_eq_true, ihp, ihq, Language.mem_add]

theorem starts_of_mem_language {p : Pattern} {c : Char} {cs : List Char}
    (h : c :: cs ∈ p.language) : p.starts c := by
  induction p generalizing c cs with
  | empty => cases h
  | one accepts =>
      obtain ⟨d, hd, hcs⟩ := h
      obtain rfl := (List.cons.inj hcs).1
      exact hd
  | run accepts => exact h.2 c List.mem_cons_self
  | seq p q ihp ihq =>
      obtain ⟨u, hu, v, hv, huv⟩ := Language.mem_mul.mp h
      rw [starts, Bool.or_eq_true, Bool.and_eq_true]
      cases u with
      | nil =>
          obtain rfl : v = c :: cs := huv
          exact Or.inr ⟨p.nullable_iff.mpr hu, ihq hv⟩
      | cons d u =>
          obtain rfl := (List.cons.inj huv).1
          exact Or.inl (ihp hu)
  | alt p q ihp ihq =>
      rw [starts, Bool.or_eq_true]
      exact h.imp ihp ihq

theorem ends_of_mem_language {p : Pattern} {c : Char} {cs : List Char} (h : cs ∈ p.language)
    (hc : cs.getLast? = some c) : p.ends c := by
  induction p generalizing cs with
  | empty =>
      obtain rfl := (Language.mem_one cs).mp h
      cases hc
  | one accepts =>
      obtain ⟨d, hd, rfl⟩ := h
      obtain rfl := Option.some.inj hc
      exact hd
  | run accepts => exact h.2 c (List.mem_of_getLast? hc)
  | seq p q ihp ihq =>
      obtain ⟨u, hu, v, hv, rfl⟩ := Language.mem_mul.mp h
      rw [ends, Bool.or_eq_true, Bool.and_eq_true]
      by_cases hempty : v = []
      · subst hempty
        rw [List.append_nil] at hc
        exact Or.inr ⟨q.nullable_iff.mpr hv, ihp hu hc⟩
      · rw [List.getLast?_append_of_ne_nil _ hempty] at hc
        exact Or.inl (ihq hv hc)
  | alt p q ihp ihq =>
      rw [ends, Bool.or_eq_true]
      exact h.imp (fun h => ihp h hc) (fun h => ihq h hc)

theorem uses_of_mem_language {p : Pattern} {c : Char} {cs : List Char} (h : cs ∈ p.language)
    (hc : c ∈ cs) : p.uses c := by
  induction p generalizing cs with
  | empty =>
      obtain rfl := (Language.mem_one cs).mp h
      cases hc
  | one accepts =>
      obtain ⟨d, hd, rfl⟩ := h
      obtain rfl := List.mem_singleton.mp hc
      exact hd
  | run accepts => exact h.2 c hc
  | seq p q ihp ihq =>
      obtain ⟨u, hu, v, hv, rfl⟩ := Language.mem_mul.mp h
      rw [uses, Bool.or_eq_true]
      exact (List.mem_append.mp hc).imp (ihp hu) (ihq hv)
  | alt p q ihp ihq =>
      rw [uses, Bool.or_eq_true]
      exact h.imp (fun h => ihp h hc) (fun h => ihq h hc)

section Tries

variable {p q : Pattern} {cs : List Char} {c : Char} {n m : Nat}

theorem zero_mem_tries_iff : 0 ∈ p.tries cs ↔ p.nullable := by
  rw [mem_tries_iff, nullable_iff, List.take_zero, and_iff_right (Nat.zero_le _)]

/-- Something is taken only where the next character is one to start with. -/
theorem exists_starts (h : n ∈ p.tries cs) (hn : n ≠ 0) : ∃ c, cs.head? = some c ∧ p.starts c := by
  obtain ⟨hlength, hmem⟩ := (mem_tries_iff p cs n).mp h
  cases cs with
  | nil => exact absurd (Nat.le_zero.mp hlength) hn
  | cons c cs =>
      obtain ⟨n, rfl⟩ := Nat.exists_eq_succ_of_ne_zero hn
      exact ⟨c, rfl, starts_of_mem_language hmem⟩

theorem eq_zero_of_not_starts (h : n ∈ p.tries cs) (hc : cs.head? = some c)
    (hstarts : ¬ p.starts c) : n = 0 := by
  by_contra hne
  obtain ⟨d, hd, hdstarts⟩ := exists_starts h hne
  rw [hc] at hd
  obtain rfl := Option.some.inj hd
  exact hstarts hdstarts

/-- A longer try uses the character right behind a shorter one. -/
theorem uses_of_lt (h : n ∈ p.tries cs) (hm : m < n) :
    ∃ c, (cs.drop m).head? = some c ∧ p.uses c := by
  obtain ⟨hlength, hmem⟩ := (mem_tries_iff p cs n).mp h
  have hget : (cs.drop m).head? = some cs[m] := by
    rw [List.head?_drop, List.getElem?_eq_getElem (hm.trans_le hlength)]
  exact ⟨_, hget, uses_of_mem_language hmem (List.mem_take_iff_getElem.mpr ⟨m, by omega, rfl⟩)⟩

end Tries

/-- In no place does the pattern choose what it could have chosen later. -/
def Ordered : Pattern → Prop
  | empty | one _ | run _ => True
  | seq p q => p.Ordered ∧ q.Ordered ∧ ∀ c, p.uses c → ¬ q.starts c
  | alt p q => p.Ordered ∧ q.Ordered ∧ ¬ p.nullable ∧ ∀ c, p.starts c → ¬ q.starts c

/-- The order of preference is the order of lengths, the longest first. -/
theorem Ordered.pairwise_tries {p : Pattern} (h : p.Ordered) (cs : List Char) :
    (p.tries cs).Pairwise (· > ·) := by
  induction p generalizing cs with
  | empty => exact List.pairwise_singleton _ _
  | one accepts =>
      cases cs with
      | nil => exact List.Pairwise.nil
      | cons c cs =>
          rw [tries]
          split
          · exact List.pairwise_singleton _ _
          · exact List.Pairwise.nil
  | run accepts => exact List.pairwise_reverse.mpr (List.pairwise_lt_range' 1)
  | seq p q ihp ihq =>
      obtain ⟨hp, hq, happart⟩ := h
      rw [tries, List.pairwise_flatMap]
      refine ⟨fun n _ => List.pairwise_map.mpr ((ihq hq _).imp (Nat.add_lt_add_left · n)),
        (ihp hp cs).imp_of_mem fun {a b} ha _ hab x hx y hy => ?_⟩
      obtain ⟨m, _, rfl⟩ := List.mem_map.mp hx
      obtain ⟨n, hn, rfl⟩ := List.mem_map.mp hy
      -- Behind the shorter first part stands a character that the longer one takes.
      obtain ⟨c, hc, huses⟩ := uses_of_lt ha hab
      have hzero := eq_zero_of_not_starts hn hc (happart c huses)
      omega
  | alt p q ihp ihq =>
      obtain ⟨hp, hq, hnullable, happart⟩ := h
      rw [tries]
      refine List.pairwise_append.mpr ⟨ihp hp cs, ihq hq cs, fun a ha b hb => ?_⟩
      have hne : a ≠ 0 := by
        rintro rfl
        exact hnullable (zero_mem_tries_iff.mp ha)
      obtain ⟨c, hc, hstarts⟩ := exists_starts ha hne
      have hzero := eq_zero_of_not_starts hb hc (happart c hstarts)
      omega

-- Where both alternatives start alike, the shorter one can come first.
example :
    (alt (one (· = 'a')) (seq (one (· = 'a')) (one (· = 'b')))).tries ['a', 'b'] = [1, 2] := by
  decide

end Pattern

/-- Whether a word begins or ends at a place of a line. -/
def boundaryAt (line : List Char) (place : Nat) : Bool :=
  isBoundary (line.take place).getLast? (line.drop place).head?

theorem boundaryAt_length (before rest : List Char) :
    boundaryAt (before ++ rest) before.length = isBoundary before.getLast? rest.head? := by
  rw [boundaryAt, List.take_left, List.drop_left]

/-- Behind a place, only what stands behind it matters. -/
theorem boundaryAt_length_add {before rest : List Char} {n : Nat} (h : rest.take n ≠ []) :
    boundaryAt (before ++ rest) (before.length + n) = boundaryAt rest n := by
  rw [boundaryAt, boundaryAt, List.take_length_add_append, List.drop_length_add_append,
    List.getLast?_append_of_ne_nil _ h]

namespace Pattern

/-- A place has to be a word boundary, and the first try that ends at one is taken. -/
def lengthAt (p : Pattern) : LengthRule := fun before rest =>
  if isBoundary before rest.head? then ((p.tries rest).find? (boundaryAt rest)).getD 0 else 0

/-- What the pattern can take on a line, with a word boundary at both ends. -/
structure Fits (p : Pattern) (line : List Char) (start stop : Nat) : Prop where
  le : start ≤ stop
  le_length : stop ≤ line.length
  mem : line.extract start stop ∈ p.language
  boundary_start : boundaryAt line start
  boundary_stop : boundaryAt line stop

section Search

variable {p : Pattern} {before rest line : List Char} {n m start stop : Nat}

theorem fits_iff (hn : n ≠ 0) :
    p.Fits (before ++ rest) before.length (before.length + n) ↔
      n ∈ p.tries rest ∧ isBoundary before.getLast? rest.head? ∧ boundaryAt rest n := by
  have htake (hlength : n ≤ rest.length) : rest.take n ≠ [] := by
    rw [Ne, List.take_eq_nil_iff]
    rintro (h | rfl)
    · exact hn h
    · exact hn (Nat.le_zero.mp hlength)
  have hextract : (before ++ rest).extract before.length (before.length + n) = rest.take n := by
    rw [List.extract_eq_take_drop, List.drop_left, Nat.add_sub_cancel_left]
  rw [mem_tries_iff]
  constructor
  · intro h
    have hlength := h.le_length
    rw [List.length_append] at hlength
    have hmem := h.mem
    have hstart := h.boundary_start
    have hstop := h.boundary_stop
    rw [hextract] at hmem
    rw [boundaryAt_length] at hstart
    rw [boundaryAt_length_add (htake (by omega))] at hstop
    exact ⟨⟨by omega, hmem⟩, hstart, hstop⟩
  · rintro ⟨⟨hlength, hmem⟩, hstart, hstop⟩
    refine ⟨Nat.le_add_right _ _, ?_, ?_, ?_, ?_⟩
    · rw [List.length_append]
      omega
    · rwa [hextract]
    · rwa [boundaryAt_length]
    · rwa [boundaryAt_length_add (htake hlength)]

theorem Fits.lt (h : p.Fits line start stop) (hnullable : ¬ p.nullable) : start < stop := by
  refine Nat.lt_of_le_of_ne h.le ?_
  rintro rfl
  have hmem := h.mem
  rw [List.extract_eq_take_drop, Nat.sub_self, List.take_zero] at hmem
  exact hnullable (p.nullable_iff.mpr hmem)

/-- The first that is found in a list that goes down is the greatest. -/
theorem le_of_find?_eq_some {ns : List Nat} {accepts : Nat → Bool} (h : ns.Pairwise (· > ·))
    (hfind : ns.find? accepts = some n) (hm : m ∈ ns) (haccepts : accepts m) : m ≤ n := by
  obtain ⟨-, earlier, later, rfl, hearlier⟩ := List.find?_eq_some_iff_append.mp hfind
  rcases List.mem_append.mp hm with hm | hm
  · have hrefuses := hearlier m hm
    rw [haccepts] at hrefuses
    cases hrefuses
  · rcases List.mem_cons.mp hm with rfl | hm
    · exact Nat.le_refl m
    · have hlater := (List.pairwise_cons.mp (List.pairwise_append.mp h).2.1).1
      exact (hlater m hm).le

theorem find?_of_lengthAt_ne_zero (h : p.lengthAt before.getLast? rest ≠ 0) :
    isBoundary before.getLast? rest.head? ∧
      (p.tries rest).find? (boundaryAt rest) = some (p.lengthAt before.getLast? rest) := by
  rw [lengthAt] at h ⊢
  split at h
  case isFalse => exact absurd rfl h
  case isTrue hstart =>
    rw [if_pos hstart]
    cases hfind : (p.tries rest).find? (boundaryAt rest) with
    | none => exact absurd (by rw [hfind, Option.getD_none]) h
    | some n => exact ⟨hstart, by rw [Option.getD_some]⟩

theorem lengthAt_ne_zero (hnullable : ¬ p.nullable) (hn : n ∈ p.tries rest)
    (hstart : isBoundary before.getLast? rest.head?) (hstop : boundaryAt rest n) :
    p.lengthAt before.getLast? rest ≠ 0 := by
  rw [lengthAt, if_pos hstart]
  cases hfind : (p.tries rest).find? (boundaryAt rest) with
  | none => exact absurd hstop (List.find?_eq_none.mp hfind n hn)
  | some m =>
      rw [Option.getD_some]
      rintro rfl
      exact hnullable (zero_mem_tries_iff.mp (List.mem_of_find?_eq_some hfind))

/-- Backtracking finds the longest stretch at each place if the order of preference is that of
lengths. -/
theorem Ordered.givesLongest (h : p.Ordered) (hnullable : ¬ p.nullable) (line : List Char) :
    GivesLongest p.lengthAt (p.Fits line) line := by
  refine ⟨fun start stop hfits => ⟨hfits.lt hnullable, hfits.le_length⟩, ?_, ?_⟩
  · rintro before rest rfl hzero stop hfits
    obtain ⟨n, rfl⟩ := Nat.exists_eq_add_of_le hfits.le
    have hn : n ≠ 0 := by
      have hlt := hfits.lt hnullable
      omega
    obtain ⟨hmem, hstart, hstop⟩ := (fits_iff hn).mp hfits
    exact lengthAt_ne_zero hnullable hmem hstart hstop hzero
  · rintro before rest rfl hne
    obtain ⟨hstart, hfind⟩ := find?_of_lengthAt_ne_zero hne
    refine ⟨(fits_iff hne).mpr ⟨List.mem_of_find?_eq_some hfind, hstart, List.find?_some hfind⟩, ?_⟩
    intro stop hfits
    obtain ⟨n, rfl⟩ := Nat.exists_eq_add_of_le hfits.le
    have hn : n ≠ 0 := by
      have hlt := hfits.lt hnullable
      omega
    obtain ⟨hmem, -, hstop⟩ := (fits_iff hn).mp hfits
    exact Nat.add_le_add_left (le_of_find?_eq_some (h.pairwise_tries rest) hfind hmem hstop) _

end Search

/-- The stretches of a line that a search with backtracking finds, one after the other. -/
def search (p : Pattern) (line : List Char) : List (Nat × Nat) :=
  (cuts p.lengthAt line).map Cut.places

/-- A search with backtracking finds the leftmost longest stretches. -/
theorem Ordered.leftmostLongest_iff {p : Pattern} (h : p.Ordered) (hnullable : ¬ p.nullable)
    (line : List Char) (found : List (Nat × Nat)) :
    LeftmostLongest (p.Fits line) 0 found ↔ found = p.search line :=
  (h.givesLongest hnullable line).leftmostLongest_iff found

end Pattern

end FoamDict.Text
