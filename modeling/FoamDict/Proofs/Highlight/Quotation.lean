import Mathlib.Computability.Language
import FoamDict.Proofs.Highlight.Region

/-!
# Quotations are those of one pass

A pass over a line reads each character once. It is outside quotations or inside the one that a
quote has opened, where a backslash takes away what the next character means. The scan for
quotations goes back instead: where a quote is never closed it tries every later one. All of these
stand behind backslashes, since any other would have closed the first; so each is read on as the
first one was, and is not closed either. From no place do two stretches belong to the language of
quotations, and both the scan and the pass take the leftmost ones.
-/

namespace FoamDict.Highlight

open FoamDict.Keyword (Catalog Sections)
open FoamDict.Text
open scoped Computability

namespace Quotation

/-- Where a pass stands: outside quotations, or inside the one opened at a place, where the next
character may stand behind a backslash. -/
inductive Mode where
  | outside
  | inside (start : Nat)
  | escaped (start : Nat)

namespace Mode

def next (place : Nat) : Mode → Char → Mode
  | outside, c => if c = '"' then inside place else outside
  | inside start, c =>
    if c = '\\' then escaped start else if c = '"' then outside else inside start
  | escaped start, _ => inside start

/-- The quotation that ends with the character at the place. -/
def closed? (place : Nat) : Mode → Char → Option (Nat × Nat)
  | inside start, c => if c = '"' then some (start, place + 1) else none
  | outside, _ | escaped _, _ => none

def opening? : Mode → Option Nat
  | outside => none
  | inside start | escaped start => some start

variable {mode : Mode} {place start : Nat} {c : Char}

/-- A step into an open quotation closes none, and the quotation was open before or starts there. -/
theorem opening?_next (h : (mode.next place c).opening? = some start) :
    mode.closed? place c = none ∧ (mode.opening? = some start ∨ place = start) := by
  cases mode with
  | outside =>
      rw [next] at h
      split at h
      · exact ⟨rfl, Or.inr (Option.some.inj h)⟩
      · cases h
  | inside first =>
      rw [next] at h
      split at h
      case isTrue hescape =>
        subst hescape
        exact ⟨rfl, Or.inl h⟩
      case isFalse =>
        split at h
        · cases h
        · rename_i hquote
          exact ⟨if_neg hquote, Or.inl h⟩
  | escaped first => exact ⟨rfl, Or.inl h⟩

theorem stop_of_closed? {p : Nat × Nat} (h : mode.closed? place c = some p) : p.2 = place + 1 := by
  cases mode with
  | inside first =>
      rw [closed?] at h
      split at h
      · rw [← Option.some.inj h]
      · cases h
  | outside | escaped _ => cases h

end Mode

def passFrom : Mode → Nat → List Char → List (Nat × Nat)
  | _, _, [] => []
  | mode, place, c :: cs =>
    (mode.closed? place c).toList ++ passFrom (mode.next place c) (place + 1) cs

def modeAfter : Mode → Nat → List Char → Mode
  | mode, _, [] => mode
  | mode, place, c :: cs => modeAfter (mode.next place c) (place + 1) cs

/-- The quotations of a line, each with its start and its end. -/
def pass (line : List Char) : List (Nat × Nat) := passFrom .outside 0 line

/-- The place of the quote that no quote closes. -/
def unclosed? (line : List Char) : Option Nat := (modeAfter .outside 0 line).opening?

section Closing

variable {c : Char} {cs : List Char} {n : Nat}

theorem closing?_escape (c : Char) (cs : List Char) :
    closing? ('\\' :: c :: cs) = (closing? cs).map (· + 2) := rfl

theorem closing?_quote (cs : List Char) : closing? ('"' :: cs) = some 1 := rfl

theorem closing?_plain (hquote : c ≠ '"') (hescape : c ≠ '\\') (cs : List Char) :
    closing? (c :: cs) = (closing? cs).map (· + 1) := by
  rw [closing?]
  · exact if_neg hquote
  · exact fun hc _ => hescape hc
  · exact fun _ _ hc _ => hescape hc

/-- Induction along the characters of a quotation, a backslash with the one behind it. -/
theorem closing_induction {motive : List Char → Prop} (nil : motive [])
    (lone : motive ['\\']) (escape : ∀ c cs, motive cs → motive ('\\' :: c :: cs))
    (quote : ∀ cs, motive ('"' :: cs))
    (plain : ∀ c cs, c ≠ '"' → c ≠ '\\' → motive cs → motive (c :: cs)) (cs : List Char) :
    motive cs := by
  induction cs using closing?.induct with
  | case1 => exact nil
  | case2 => exact lone
  | case3 c cs ih => exact escape c cs ih
  | case4 cs => exact quote cs
  | case5 c cs hlone hpair hquote ih =>
      have hescape : c ≠ '\\' := by
        rintro rfl
        cases cs with
        | nil => exact hlone rfl rfl
        | cons d cs => exact hpair d cs rfl rfl
      exact plain c cs hquote hescape ih

theorem le_length_of_closing? (h : closing? cs = some n) : n ≤ cs.length := by
  induction cs using closing_induction generalizing n with
  | nil => cases h
  | lone => cases h
  | escape c cs ih =>
      rw [closing?_escape] at h
      obtain ⟨m, hm, rfl⟩ := Option.map_eq_some_iff.mp h
      exact Nat.add_le_add_right (ih hm) 2
  | quote cs =>
      obtain rfl := Option.some.inj h
      exact Nat.succ_le_succ (Nat.zero_le _)
  | plain c cs hquote hescape ih =>
      rw [closing?_plain hquote hescape] at h
      obtain ⟨m, hm, rfl⟩ := Option.map_eq_some_iff.mp h
      exact Nat.succ_le_succ (ih hm)

theorem lengthAt_quote (before : Option Char) (cs : List Char) :
    lengthAt before ('"' :: cs) = ((closing? cs).map (· + 1)).getD 0 := rfl

theorem lengthAt_of_ne (hquote : c ≠ '"') (before : Option Char) (cs : List Char) :
    lengthAt before (c :: cs) = 0 := by
  unfold lengthAt
  split
  case h_1 heq => exact absurd (List.cons.inj heq).1 hquote
  case h_2 => rfl

theorem lengthAt_of_unclosed (h : closing? cs = none) (before : Option Char) (c : Char) :
    lengthAt before (c :: cs) = 0 := by
  by_cases hquote : c = '"'
  · rw [hquote, lengthAt_quote, h]
    rfl
  · exact lengthAt_of_ne hquote before cs

end Closing

section Pass

variable {cs : List Char} {mode : Mode} {start place : Nat}

/-- Inside a quotation, the pass goes on to the quote that closes it. -/
theorem passFrom_inside (start place : Nat) (cs : List Char) :
    passFrom (.inside start) place cs =
      (closing? cs).elim [] fun n =>
        (start, place + n) :: passFrom .outside (place + n) (cs.drop n) := by
  induction cs using closing_induction generalizing place with
  | nil => rfl
  | lone => rfl
  | escape c cs ih =>
      have hnext : passFrom (.inside start) place ('\\' :: c :: cs) =
          passFrom (.inside start) (place + 2) cs := rfl
      rw [hnext, ih, closing?_escape]
      cases closing? cs with
      | none => rfl
      | some n =>
          have hplace : place + 2 + n = place + (n + 2) := by omega
          simp only [Option.elim_some, Option.map_some, hplace, List.drop_succ_cons]
  | quote cs => rfl
  | plain c cs hquote hescape ih =>
      have hnext : passFrom (.inside start) place (c :: cs) =
          passFrom (.inside start) (place + 1) cs := by
        simp [passFrom, Mode.next, Mode.closed?, hquote, hescape]
      rw [hnext, ih, closing?_plain hquote hescape]
      cases closing? cs with
      | none => rfl
      | some n =>
          have hplace : place + 1 + n = place + (n + 1) := by omega
          simp only [Option.elim_some, Option.map_some, hplace, List.drop_succ_cons]

/-- Where a quotation stays open, no later quote is closed: each of them stands behind a backslash,
and behind it the search reads on as it did for the first one. -/
theorem cutsFrom_eq_nil_of_unclosed (h : closing? cs = none) (before : List Char) :
    cutsFrom lengthAt before 0 cs = [] := by
  induction cs using closing_induction generalizing before with
  | nil => rfl
  | lone => rfl
  | escape c cs ih =>
      rw [closing?_escape, Option.map_eq_none_iff] at h
      rw [cutsFrom_cons_of_eq_zero (lengthAt_of_ne (by decide) _ _),
        cutsFrom_cons_of_eq_zero (lengthAt_of_unclosed h _ c), ih h]
  | quote cs => cases h
  | plain c cs hquote hescape ih =>
      rw [closing?_plain hquote hescape, Option.map_eq_none_iff] at h
      rw [cutsFrom_cons_of_eq_zero (lengthAt_of_ne hquote _ _), ih h]

theorem passFrom_outside_of_ne {c : Char} (hquote : c ≠ '"') (place : Nat) (cs : List Char) :
    passFrom .outside place (c :: cs) = passFrom .outside (place + 1) cs := by
  simp [passFrom, Mode.next, Mode.closed?, hquote]

theorem map_places_cutsFrom (before : List Char) (skip : Nat) (cs : List Char) :
    (cutsFrom lengthAt before skip cs).map Cut.places =
      passFrom .outside (before.length + skip) (cs.drop skip) := by
  induction cs generalizing before skip with
  | nil => cases skip <;> rfl
  | cons c cs ih =>
      have hnext (k : Nat) := ih (before ++ [c]) k
      simp only [List.length_append, List.length_singleton] at hnext
      cases skip with
      | succ skip =>
          have hplace : before.length + 1 + skip = before.length + (skip + 1) := by omega
          rw [cutsFrom, hnext, hplace, List.drop_succ_cons]
      | zero =>
          rw [List.drop_zero, Nat.add_zero]
          by_cases hquote : c = '"'
          · subst hquote
            have hopen : passFrom .outside before.length ('"' :: cs) =
                passFrom (.inside before.length) (before.length + 1) cs := rfl
            rw [hopen, passFrom_inside]
            cases hclosing : closing? cs with
            | none =>
                rw [cutsFrom_cons_of_eq_zero (lengthAt_of_unclosed hclosing _ _),
                  cutsFrom_eq_nil_of_unclosed hclosing]
                rfl
            | some n =>
                have hlength : lengthAt before.getLast? ('"' :: cs) = n + 1 := by
                  rw [lengthAt_quote, hclosing, Option.map_some, Option.getD_some]
                have hplaces : Cut.places ⟨before, '"' :: cs.take n⟩ =
                    (before.length, before.length + 1 + n) := by
                  rw [Cut.places, List.length_cons,
                    List.length_take_of_le (le_length_of_closing? hclosing), Nat.add_assoc,
                    Nat.add_comm 1]
                rw [cutsFrom_cons_of_eq_succ hlength, List.map_cons, hplaces, hnext,
                  Option.elim_some]
          · rw [cutsFrom_cons_of_eq_zero (lengthAt_of_ne hquote _ _), hnext,
              passFrom_outside_of_ne hquote, Nat.add_zero, List.drop_zero]

theorem map_places_cuts (line : List Char) : (cuts lengthAt line).map Cut.places = pass line :=
  map_places_cutsFrom [] 0 line

/-- A quotation left open is the one that the pass stands in from the start, which then closes
nothing, or it is opened later, behind all that is closed. -/
theorem opening_of_modeAfter (h : (modeAfter mode place cs).opening? = some start) :
    mode.opening? = some start ∧ passFrom mode place cs = [] ∨
      place ≤ start ∧ ∀ p ∈ passFrom mode place cs, p.2 ≤ start := by
  induction cs generalizing mode place with
  | nil => exact Or.inl ⟨h, rfl⟩
  | cons c cs ih =>
      rw [passFrom]
      rcases ih h with ⟨hopening, hnone⟩ | ⟨hplace, hstop⟩
      · obtain ⟨hclosed, hopening | hplace⟩ := Mode.opening?_next hopening
        · exact Or.inl ⟨hopening, by rw [hclosed, hnone]; rfl⟩
        · refine Or.inr ⟨hplace.le, fun p hp => ?_⟩
          rw [hclosed, hnone] at hp
          cases hp
      · refine Or.inr ⟨Nat.le_of_succ_le hplace, fun p hp => ?_⟩
        rcases List.mem_append.mp hp with hp | hp
        · rw [Mode.stop_of_closed? (Option.mem_toList.mp hp)]
          exact hplace
        · exact hstop p hp

/-- All quotations end before a quote that is never closed. -/
theorem stop_le_of_unclosed? {line : List Char} (h : unclosed? line = some start) :
    ∀ p ∈ pass line, p.2 ≤ start := by
  rcases opening_of_modeAfter h with ⟨hopening, _⟩ | ⟨_, hstop⟩
  · cases hopening
  · exact hstop

end Pass

/-- One character that is neither a quote nor a backslash. -/
def plain : Language Char := {cs | ∃ c, c ≠ '"' ∧ c ≠ '\\' ∧ cs = [c]}

/-- A backslash with the character behind it. -/
def escape : Language Char := {cs | ∃ c, cs = ['\\', c]}

def quote : Language Char := {['"']}

/-- The language of the pattern `"([^"\\]*(\\.[^"\\]*)*)"`. -/
def language : Language Char := quote * (plain∗ * (escape * plain∗)∗) * quote

section Language

variable {c : Char} {cs : List Char} {n : Nat}

/-- What stands behind the opening quote. -/
def closing : Language Char := plain∗ * (escape * plain∗)∗ * quote

theorem language_eq : language = quote * closing := mul_assoc _ _ _

theorem kstar_mul_eq (l m : Language Char) : l∗ * m = m + l * (l∗ * m) := by
  conv_lhs => rw [← Language.one_add_self_mul_kstar_eq_kstar, add_mul, one_mul, mul_assoc]

/-- A quote closes; otherwise a character, or a pair of them, is read and the search goes on. -/
theorem closing_eq : closing = quote + escape * closing + plain * closing := by
  have hplain : closing =
      (escape * plain∗)∗ * quote + plain * closing := by
    rw [closing, mul_assoc]
    exact kstar_mul_eq _ _
  have hescape : (escape * plain∗)∗ * quote = quote + escape * closing := by
    rw [closing, mul_assoc, ← mul_assoc escape]
    exact kstar_mul_eq _ _
  rw [← hescape]
  exact hplain

theorem mem_closing_iff : cs ∈ closing ↔ cs = ['"'] ∨
    (∃ c rest, cs = '\\' :: c :: rest ∧ rest ∈ closing) ∨
      ∃ c rest, cs = c :: rest ∧ c ≠ '"' ∧ c ≠ '\\' ∧ rest ∈ closing := by
  conv_lhs => rw [closing_eq]
  rw [Language.mem_add, Language.mem_add, or_assoc, Language.mem_mul, Language.mem_mul]
  refine or_congr Iff.rfl (or_congr ?_ ?_)
  · constructor
    · rintro ⟨_, ⟨c, rfl⟩, rest, hrest, rfl⟩
      exact ⟨c, rest, rfl, hrest⟩
    · rintro ⟨c, rest, rfl, hrest⟩
      exact ⟨_, ⟨c, rfl⟩, rest, hrest, rfl⟩
  · constructor
    · rintro ⟨_, ⟨c, hquote, hescape, rfl⟩, rest, hrest, rfl⟩
      exact ⟨c, rest, rfl, hquote, hescape, hrest⟩
    · rintro ⟨c, rest, rfl, hquote, hescape, hrest⟩
      exact ⟨_, ⟨c, hquote, hescape, rfl⟩, rest, hrest, rfl⟩

theorem nil_not_mem_closing : [] ∉ closing := by
  rw [mem_closing_iff]
  simp

theorem lone_not_mem_closing : ['\\'] ∉ closing := by
  rw [mem_closing_iff]
  simp

theorem mem_closing_escape_iff (c : Char) : '\\' :: c :: cs ∈ closing ↔ cs ∈ closing := by
  rw [mem_closing_iff]
  simp

theorem mem_closing_quote_iff : '"' :: cs ∈ closing ↔ cs = [] := by
  rw [mem_closing_iff]
  simp

theorem mem_closing_plain_iff (hquote : c ≠ '"') (hescape : c ≠ '\\') :
    c :: cs ∈ closing ↔ cs ∈ closing := by
  rw [mem_closing_iff]
  simp [hquote, hescape]

/-- The search for the closing quote stops exactly where the language allows it. -/
theorem closing?_eq_some_iff : closing? cs = some n ↔ n ≤ cs.length ∧ cs.take n ∈ closing := by
  induction cs using closing_induction generalizing n with
  | nil => simp [closing?, nil_not_mem_closing]
  | lone =>
      cases n with
      | zero => simp [closing?, nil_not_mem_closing]
      | succ n => simp [closing?, lone_not_mem_closing]
  | escape c cs ih =>
      rw [closing?_escape]
      match n with
      | 0 => simp [nil_not_mem_closing]
      | 1 => simp [lone_not_mem_closing]
      | n + 2 => simp [mem_closing_escape_iff, ih]
  | quote cs =>
      rw [closing?_quote]
      cases n with
      | zero => simp [nil_not_mem_closing]
      | succ n =>
          rw [List.take_succ_cons, mem_closing_quote_iff, List.take_eq_nil_iff, Option.some.injEq,
            List.length_cons]
          constructor
          · intro hn
            exact ⟨by omega, Or.inl (by omega)⟩
          · rintro ⟨hlength, hzero | rfl⟩
            · omega
            · rw [List.length_nil] at hlength
              omega
  | plain c cs hquote hescape ih =>
      rw [closing?_plain hquote hescape]
      cases n with
      | zero => simp [nil_not_mem_closing]
      | succ n => simp [mem_closing_plain_iff hquote hescape, ih]

theorem not_mem_language_of_ne (hquote : c ≠ '"') : c :: cs ∉ language := by
  rw [language_eq, Language.mem_mul]
  rintro ⟨_, rfl, rest, _, hsplit⟩
  exact hquote (List.cons.inj hsplit).1.symm

theorem mem_language_quote_iff : '"' :: cs ∈ language ↔ cs ∈ closing := by
  rw [language_eq, Language.mem_mul]
  constructor
  · rintro ⟨_, rfl, rest, hrest, hsplit⟩
    exact (List.cons.inj hsplit).2 ▸ hrest
  · exact fun hmem => ⟨_, rfl, cs, hmem, rfl⟩

theorem nil_not_mem_language : [] ∉ language := by
  rw [language_eq, Language.mem_mul]
  rintro ⟨_, rfl, rest, _, hsplit⟩
  cases hsplit

/-- The rule takes what the language allows at a place, if it allows anything. -/
theorem lengthAt_eq_iff (before : Option Char) (hn : n ≠ 0) :
    lengthAt before cs = n ↔ n ≤ cs.length ∧ cs.take n ∈ language := by
  obtain ⟨n, rfl⟩ := Nat.exists_eq_succ_of_ne_zero hn
  cases cs with
  | nil => exact iff_of_false (fun h => by cases h) fun h => nil_not_mem_language h.2
  | cons c cs =>
      rw [List.take_succ_cons]
      by_cases hquote : c = '"'
      · subst hquote
        rw [mem_language_quote_iff, List.length_cons, Nat.succ_le_succ_iff, ← closing?_eq_some_iff,
          lengthAt_quote]
        cases closing? cs with
        | none => simp
        | some m => simp
      · rw [lengthAt_of_ne hquote]
        exact iff_of_false (fun h => by cases h) fun h => not_mem_language_of_ne hquote h.2

end Language

/-- What the pattern can take on a line. -/
structure Fits (line : List Char) (start stop : Nat) : Prop where
  le_length : stop ≤ line.length
  mem : line.extract start stop ∈ language

section Search

variable {line before rest : List Char} {start stop stop' n : Nat}

theorem Fits.lt (h : Fits line start stop) : start < stop := by
  by_contra hge
  have hmem := h.mem
  rw [List.extract_eq_take_drop, Nat.sub_eq_zero_of_le (Nat.not_lt.mp hge), List.take_zero] at hmem
  exact nil_not_mem_language hmem

theorem fits_iff (hn : n ≠ 0) : Fits (before ++ rest) before.length (before.length + n) ↔
    lengthAt before.getLast? rest = n := by
  have hextract : (before ++ rest).extract before.length (before.length + n) = rest.take n := by
    rw [List.extract_eq_take_drop, List.drop_left, Nat.add_sub_cancel_left]
  rw [lengthAt_eq_iff _ hn, ← hextract]
  constructor
  · intro h
    have hlength := h.le_length
    rw [List.length_append] at hlength
    exact ⟨by omega, h.mem⟩
  · rintro ⟨hlength, hmem⟩
    refine ⟨?_, hmem⟩
    rw [List.length_append]
    omega

/-- What fits at a place has the length that the rule gives there. -/
theorem Fits.stop_eq (h : Fits (before ++ rest) before.length stop) :
    stop = before.length + lengthAt before.getLast? rest := by
  have hlt := h.lt
  obtain ⟨n, rfl⟩ := Nat.exists_eq_add_of_le hlt.le
  rw [(fits_iff (by omega)).mp h]

/-- No place is the start of two stretches that fit, so the search has nothing to prefer. -/
theorem Fits.unique (h : Fits line start stop) (h' : Fits line start stop') : stop = stop' := by
  obtain ⟨before, rest, rfl, rfl⟩ : ∃ before rest, line = before ++ rest ∧ start = before.length :=
    ⟨line.take start, line.drop start, (List.take_append_drop start line).symm,
      (List.length_take_of_le (h.lt.le.trans h.le_length)).symm⟩
  exact h.stop_eq.trans h'.stop_eq.symm

theorem givesLongest (line : List Char) : GivesLongest lengthAt (Fits line) line := by
  refine ⟨fun start stop h => ⟨h.lt, h.le_length⟩, ?_, ?_⟩
  · rintro before rest rfl hzero stop h
    have hlt := h.lt
    have hstop := h.stop_eq
    omega
  · rintro before rest rfl hne
    exact ⟨(fits_iff hne).mpr rfl, fun stop h => h.stop_eq.le⟩

theorem leftmostLongest_iff (line : List Char) (found : List (Nat × Nat)) :
    LeftmostLongest (Fits line) 0 found ↔ found = pass line := by
  rw [(givesLongest line).leftmostLongest_iff, map_places_cuts]

theorem exists_inner_of_mem_language {cs : List Char} (h : cs ∈ language) :
    ∃ inner, cs = '"' :: (inner ++ ['"']) := by
  obtain ⟨_, hopen, _, rfl, rfl⟩ := Language.mem_mul.mp h
  obtain ⟨_, rfl, inner, -, rfl⟩ := Language.mem_mul.mp hopen
  exact ⟨inner, rfl⟩

/-- A quotation begins and ends with a quote, and these are two. -/
theorem exists_inner_of_mem_cuts {c : Cut} (h : c ∈ cuts lengthAt line) :
    ∃ inner, c.text = '"' :: (inner ++ ['"']) := by
  obtain ⟨behind, hon⟩ := isOn_of_mem_cuts h
  have hmem := ((givesLongest line).fits_of_mem_cuts h).mem
  rw [Cut.extract_places hon.line_eq] at hmem
  exact exists_inner_of_mem_language hmem

end Search

end Quotation

/-- On a line of code, the strings are those of one pass. These are also the leftmost stretches that
belong to the language of quotations, of which no place starts two. No string reaches up to a quote
that is never closed. -/
theorem strings_single_pass (sections : Sections) (text : List Char) :
    ∃ spans, classify? (Catalog.assemble sections) text = some spans ∧
      ∀ i line, (lines text)[i]? = some line → ¬ Comment.IsCommentLine (lines text) i line →
        spans.filter (fun s => s.line = i ∧ s.category = .string) =
            (Quotation.pass line).map (Span.ofPlaces i .string line) ∧
        (∀ found, LeftmostLongest (Quotation.Fits line) 0 found ↔ found = Quotation.pass line) ∧
        (∀ start stop stop', Quotation.Fits line start stop → Quotation.Fits line start stop' →
          stop = stop') ∧
        ∀ start, Quotation.unclosed? line = some start →
          ∀ s ∈ spans, s.line = i → s.category = .string →
            s.start < s.stop ∧ s.stop ≤ units (line.take start) := by
  refine ⟨_, classify?_eq _ text, fun i line hget hcode => ?_⟩
  have hcovers := (Comment.covers_iff hget).not.mpr hcode
  have hstrings := filter_category_classify _ hget hcovers
    (filter_category_codeSpans sections (by decide : Category.layer .string ≠ 0) line)
  have hrule : cuts (Category.rule .string) line = cuts Quotation.lengthAt line := rfl
  rw [hrule, Quotation.map_places_cuts] at hstrings
  refine ⟨hstrings, Quotation.leftmostLongest_iff line, fun _ _ _ h h' => h.unique h',
    fun start hstart s hs hline hstring => ?_⟩
  have hmem : s ∈ (Quotation.pass line).map (Span.ofPlaces i .string line) := by
    rw [← hstrings, List.mem_filter, decide_eq_true_eq]
    exact ⟨hs, hline, hstring⟩
  obtain ⟨places, hplaces, rfl⟩ := List.mem_map.mp hmem
  have hstop := Quotation.stop_le_of_unclosed? hstart places hplaces
  rw [← Quotation.map_places_cuts] at hplaces
  obtain ⟨c, hc, rfl⟩ := List.mem_map.mp hplaces
  obtain ⟨hlt, hlength⟩ := Cut.places_of_mem hc
  rw [Span.stop_ofPlaces _ _ hlt.le]
  exact ⟨units_take_lt_units_take hlt (hlt.trans_le hlength), units_take_le_units_take hstop line⟩

/-- An escaped quote neither closes the first string nor opens one in the second, which stays
open. -/
theorem strings_single_pass_left_open :
    ∃ spans, classify? (Catalog.assemble {})
        ['"', 'a', '\\', '"', 'b', '"', ' ', '"', 'c', '\\', '"', 'd'] = some spans ∧
      spans.filter (fun s => s.line = 0 ∧ s.category = .string) = [⟨0, 0, 6, .string⟩] ∧
      ∀ s ∈ spans, s.line = 0 → s.category = .string → s.start < s.stop ∧ s.stop ≤ 7 := by
  obtain ⟨spans, hspans, h⟩ := strings_single_pass {}
    ['"', 'a', '\\', '"', 'b', '"', ' ', '"', 'c', '\\', '"', 'd']
  have hget : (lines ['"', 'a', '\\', '"', 'b', '"', ' ', '"', 'c', '\\', '"', 'd'])[0]? =
      some ['"', 'a', '\\', '"', 'b', '"', ' ', '"', 'c', '\\', '"', 'd'] := by decide
  obtain ⟨hstrings, -, -, hopen⟩ := h 0 _ hget ((Comment.covers_iff hget).not.mp (by decide))
  have hpass : Quotation.pass
      ['"', 'a', '\\', '"', 'b', '"', ' ', '"', 'c', '\\', '"', 'd'] = [(0, 6)] := by decide
  refine ⟨spans, hspans, ?_, hopen 7 (by decide)⟩
  rw [hstrings, hpass]
  decide

end FoamDict.Highlight
