import FoamDict.Proofs.Highlight.Alphabet
import FoamDict.Proofs.Highlight.Region
import FoamDict.Proofs.Text.Pattern

/-!
# Numerals are the leftmost longest

The numerals of a line are those that a backtracking search for the pattern of numerals finds: the
readings at a place only leave out tries that cut a run of digits, and no word boundary lies there.
The order of the pattern's tries is that of their lengths. So the search takes the leftmost longest
stretches of the line that belong to the language of the pattern and have a word boundary at both
ends.
-/

namespace FoamDict.Highlight

open FoamDict.Keyword (Catalog Sections)
open FoamDict.Text

namespace Numeral

def isSign (c : Char) : Bool := c = '+' ∨ c = '-'

def isPoint (c : Char) : Bool := c = '.'

def isExponentMark (c : Char) : Bool := c = 'e' ∨ c = 'E'

def sign : Pattern := .optional (.one isSign)

def digitRun : Pattern := .run Char.isDigit

def mantissa : Pattern :=
  .alt (.seq digitRun (.optional (.seq (.one isPoint) (.optional digitRun))))
    (.seq (.one isPoint) digitRun)

def exponent : Pattern := .optional (.seq (.one isExponentMark) (.seq sign digitRun))

/-- The pattern `[+-]?([0-9]+(\.[0-9]*)?|\.[0-9]+)([eE][+-]?[0-9]+)?`. -/
def pattern : Pattern := .seq sign (.seq mantissa exponent)

theorem not_isDigit_of_isSign {c : Char} (h : isSign c) : ¬ c.isDigit := by
  rcases of_decide_eq_true h with rfl | rfl <;> decide

theorem not_isDigit_of_isPoint {c : Char} (h : isPoint c) : ¬ c.isDigit := by
  obtain rfl := of_decide_eq_true h
  decide

theorem not_isDigit_of_isExponentMark {c : Char} (h : isExponentMark c) : ¬ c.isDigit := by
  rcases of_decide_eq_true h with rfl | rfl <;> decide

theorem ordered_pattern : pattern.Ordered := by
  have hpoint {c : Char} (h : isPoint c) : ¬ isSign c ∧ ¬ isExponentMark c := by
    obtain rfl := of_decide_eq_true h
    decide
  have hmark {c : Char} (h : isExponentMark c) : ¬ isSign c := by
    rcases of_decide_eq_true h with rfl | rfl <;> decide
  simp only [pattern, sign, mantissa, exponent, digitRun, Pattern.optional, Pattern.Ordered,
    Pattern.uses, Pattern.starts, Pattern.nullable]
  and_intros <;>
    grind [not_isDigit_of_isSign, not_isDigit_of_isPoint, not_isDigit_of_isExponentMark]

theorem not_nullable_pattern : ¬ pattern.nullable := Bool.false_ne_true

/-- Behind the first `n` characters no run of digits is cut. -/
def keepsRuns (cs : List Char) (n : Nat) : Bool :=
  !((cs.take n).getLast?.any Char.isDigit && (cs.drop n).head?.any Char.isDigit)

/-- The tries that cut no run of digits. -/
def wholeTries (p : Pattern) (cs : List Char) : List Nat := (p.tries cs).filter (keepsRuns cs)

section Whole

variable {p q : Pattern} {cs : List Char} {n m : Nat}

theorem not_keepsRuns_iff : ¬ keepsRuns cs n ↔
    ∃ c d, (cs.take n).getLast? = some c ∧ (cs.drop n).head? = some d ∧ c.isDigit ∧ d.isDigit := by
  rw [keepsRuns, Bool.not_eq_true', Bool.not_eq_false, Bool.and_eq_true, Option.any_eq_true,
    Option.any_eq_true]
  constructor
  · rintro ⟨⟨c, hc, hcdigit⟩, d, hd, hddigit⟩
    exact ⟨c, d, hc, hd, hcdigit, hddigit⟩
  · rintro ⟨c, d, hc, hd, hcdigit, hddigit⟩
    exact ⟨⟨c, hc, hcdigit⟩, d, hd, hddigit⟩

theorem isWordChar_of_isDigit {c : Char} (h : c.isDigit) : isWordChar c := by
  rw [isWordChar, Char.isAlphanum, h, Bool.or_true, Bool.true_or]

theorem keepsRuns_of_boundaryAt (h : boundaryAt cs n) : keepsRuns cs n := by
  by_contra hcuts
  obtain ⟨c, d, hc, hd, hcdigit, hddigit⟩ := not_keepsRuns_iff.mp hcuts
  rw [boundaryAt, hc, hd, isBoundary, Option.any_some, Option.any_some,
    isWordChar_of_isDigit hcdigit, isWordChar_of_isDigit hddigit] at h
  cases h

theorem keepsRuns_add (h : keepsRuns cs m) (n : Nat) :
    keepsRuns cs (m + n) = keepsRuns (cs.drop m) n := by
  cases n with
  | zero => exact h
  | succ n =>
      rw [keepsRuns, keepsRuns, List.take_add, ← List.drop_drop]
      cases cs.drop m with
      | nil => rw [List.drop_nil, List.head?_nil, Option.any_none, Bool.and_false, Bool.and_false]
      | cons c rest =>
          rw [List.take_succ_cons, List.getLast?_append_of_ne_nil _ (List.cons_ne_nil _ _)]

/-- Where the first part has cut a run of digits, the second one takes nothing. -/
theorem eq_zero_of_not_keepsRuns (h : ∀ c d, c.isDigit → d.isDigit → p.uses c → ¬ q.starts d)
    (hn : n ∈ p.tries cs) (hcuts : ¬ keepsRuns cs n) (hm : m ∈ q.tries (cs.drop n)) : m = 0 := by
  obtain ⟨c, d, hc, hd, hcdigit, hddigit⟩ := not_keepsRuns_iff.mp hcuts
  have huses := Pattern.uses_of_mem_language ((p.mem_tries_iff cs n).mp hn).2
    (List.mem_of_getLast? hc)
  exact Pattern.eq_zero_of_not_starts hm hd (h c d hcdigit hddigit huses)

theorem filter_flatMap_eq {α β : Type} (test : α → Bool) (f : α → List β) (l : List α) :
    (l.filter test).flatMap f = l.flatMap fun a => if test a then f a else [] := by
  induction l with
  | nil => rfl
  | cons a l ih =>
      rw [List.flatMap_cons, ← ih, List.filter_cons]
      split
      · rw [List.flatMap_cons]
      · rw [List.nil_append]

/-- Of two parts in a row, each keeps runs of digits if they do not share one. -/
theorem wholeTries_seq (h : ∀ c d, c.isDigit → d.isDigit → p.uses c → ¬ q.starts d)
    (cs : List Char) :
    wholeTries (.seq p q) cs =
      (wholeTries p cs).flatMap fun n => (wholeTries q (cs.drop n)).map (n + ·) := by
  rw [wholeTries, Pattern.tries, List.filter_flatMap, wholeTries, filter_flatMap_eq]
  refine List.flatMap_congr fun n hn => ?_
  rw [List.filter_map]
  split
  case isTrue hkeeps =>
    have hsame : keepsRuns cs ∘ (n + ·) = keepsRuns (cs.drop n) := funext (keepsRuns_add hkeeps)
    rw [wholeTries, hsame]
  case isFalse hcuts =>
    rw [List.map_eq_nil_iff, List.filter_eq_nil_iff]
    intro m hm
    rw [eq_zero_of_not_keepsRuns h hn hcuts hm]
    exact hcuts

theorem wholeTries_alt (p q : Pattern) (cs : List Char) :
    wholeTries (.alt p q) cs = wholeTries p cs ++ wholeTries q cs :=
  List.filter_append _ _

theorem wholeTries_optional (p : Pattern) (cs : List Char) :
    wholeTries (.optional p) cs = wholeTries p cs ++ [0] := wholeTries_alt p .empty cs

theorem not_isDigit_of_head?_drop_digits {d : Char} (h : (cs.drop (digits cs)).head? = some d) :
    ¬ d.isDigit := by
  have hhead := List.head?_dropWhile_not Char.isDigit cs
  rw [← drop_length_takeWhile, ← digits, h] at hhead
  rw [hhead]
  exact Bool.false_ne_true

theorem mem_tries_digitRun_iff : n ∈ digitRun.tries cs ↔ n ≠ 0 ∧ n ≤ digits cs :=
  Pattern.mem_tries_run_iff Char.isDigit cs n

/-- A run of digits is whole only if it is the longest. -/
theorem keepsRuns_iff_of_mem (h : n ∈ digitRun.tries cs) : keepsRuns cs n ↔ n = digits cs := by
  obtain ⟨hne, hle⟩ := mem_tries_digitRun_iff.mp h
  constructor
  · intro hkeeps
    by_contra hshort
    obtain ⟨-, hmem⟩ := (digitRun.mem_tries_iff cs n).mp h
    have hlast := List.getLast?_eq_some_getLast hmem.1
    have hlongest := mem_tries_digitRun_iff.mpr ⟨by omega, Nat.le_refl (digits cs)⟩
    obtain ⟨d, hd, hddigit⟩ := Pattern.uses_of_lt hlongest (Nat.lt_of_le_of_ne hle hshort)
    exact not_keepsRuns_iff.mpr ⟨_, d, hlast, hd, hmem.2 _ (List.getLast_mem _), hddigit⟩ hkeeps
  · rintro rfl
    by_contra hcuts
    obtain ⟨c, d, -, hd, -, hddigit⟩ := not_keepsRuns_iff.mp hcuts
    exact not_isDigit_of_head?_drop_digits hd hddigit

theorem wholeTries_digitRun (cs : List Char) :
    wholeTries digitRun cs = if digits cs = 0 then [] else [digits cs] := by
  have hwhole : wholeTries digitRun cs = (digitRun.tries cs).filter (· = digits cs) := by
    refine List.filter_congr fun n hn => ?_
    rw [Bool.eq_iff_iff, keepsRuns_iff_of_mem hn, decide_eq_true_eq]
  have hordered : digitRun.Ordered := trivial
  have hnodup : (digitRun.tries cs).Nodup := (hordered.pairwise_tries cs).imp fun hlt => hlt.ne'
  have hmem : digits cs ∈ digitRun.tries cs ↔ digits cs ≠ 0 := by
    rw [mem_tries_digitRun_iff, and_iff_left (Nat.le_refl _)]
  rw [hwhole, List.filter_eq, hnodup.count]
  by_cases hzero : digits cs = 0
  · rw [if_neg (hmem.not.mpr (not_not.mpr hzero)), if_pos hzero, List.replicate_zero]
  · rw [if_pos (hmem.mpr hzero), if_neg hzero, List.replicate_one]

/-- A part without digits cuts no run of them. -/
theorem wholeTries_one {accepts : Char → Bool} (h : ∀ c, accepts c → ¬ c.isDigit) (cs : List Char) :
    wholeTries (.one accepts) cs = (Pattern.one accepts).tries cs := by
  rw [wholeTries, List.filter_eq_self]
  intro n hn
  by_contra hcuts
  obtain ⟨c, d, hc, -, hcdigit, -⟩ := not_keepsRuns_iff.mp hcuts
  have huses := Pattern.uses_of_mem_language ((Pattern.mem_tries_iff _ cs n).mp hn).2
    (List.mem_of_getLast? hc)
  exact h c huses hcdigit

theorem wholeTries_one_seq {accepts : Char → Bool} (haccepts : ∀ c, accepts c → ¬ c.isDigit)
    {c : Char} (hc : accepts c) (p : Pattern) (cs : List Char) :
    wholeTries (.seq (.one accepts) p) (c :: cs) = (wholeTries p cs).map (1 + ·) := by
  have happart : ∀ c d, c.isDigit → d.isDigit → (Pattern.one accepts).uses c → ¬ p.starts d :=
    fun c _ hdigit _ huses => absurd hdigit (haccepts c huses)
  rw [wholeTries_seq happart, wholeTries_one haccepts, Pattern.tries, if_pos hc,
    List.flatMap_singleton, List.drop_succ_cons, List.drop_zero]

theorem wholeTries_eq_nil (hnullable : ¬ p.nullable) (h : ∀ c, cs.head? = some c → ¬ p.starts c) :
    wholeTries p cs = [] := by
  rw [List.eq_nil_iff_forall_not_mem]
  intro n hn
  have htry := List.mem_of_mem_filter hn
  by_cases hzero : n = 0
  · subst hzero
    exact hnullable (Pattern.zero_mem_tries_iff.mp htry)
  · obtain ⟨c, hc, hstarts⟩ := Pattern.exists_starts htry hzero
    exact h c hc hstarts

/-- Where a part starts with no sign of its own, a sign in front of it is taken if there is one. -/
theorem wholeTries_sign_seq (hsign : ∀ c, isSign c → ¬ p.starts c) (hnullable : ¬ p.nullable)
    (cs : List Char) :
    wholeTries (.seq sign p) cs =
      (wholeTries p (cs.drop (signLength cs))).map (signLength cs + ·) := by
  have happart : ∀ c d, c.isDigit → d.isDigit → sign.uses c → ¬ p.starts d := by
    intro c d hc _ huses
    rw [sign, Pattern.optional, Pattern.uses, Pattern.uses, Pattern.uses, Bool.or_false] at huses
    exact absurd hc (not_isDigit_of_isSign huses)
  rw [wholeTries_seq happart, sign, wholeTries_optional,
    wholeTries_one fun _ => not_isDigit_of_isSign]
  cases cs with
  | nil => simp [Pattern.tries, signLength]
  | cons c cs =>
      by_cases hc : isSign c
      · have hlength : signLength (c :: cs) = 1 := if_pos (of_decide_eq_true hc)
        -- Without the sign, the part would have to start with it.
        have hbare : wholeTries p (c :: cs) = [] := by
          refine wholeTries_eq_nil hnullable fun d hd => ?_
          obtain rfl := Option.some.inj hd
          exact hsign c hc
        simp [Pattern.tries, hc, hlength, hbare]
      · have hlength : signLength (c :: cs) = 0 := if_neg (mt decide_eq_true hc)
        simp [Pattern.tries, hc, hlength]

theorem wholeTries_point_seq (p : Pattern) (rest : List Char) :
    wholeTries (.seq (.one isPoint) p) ('.' :: rest) = (wholeTries p rest).map (1 + ·) :=
  wholeTries_one_seq (fun _ => not_isDigit_of_isPoint) rfl p rest

theorem wholeTries_point_seq_eq_nil (h : ∀ rest, cs ≠ '.' :: rest) (p : Pattern) :
    wholeTries (.seq (.one isPoint) p) cs = [] := by
  refine wholeTries_eq_nil Bool.false_ne_true fun c hc hstarts => ?_
  rw [Pattern.starts, Pattern.nullable, Bool.false_and, Bool.or_false] at hstarts
  obtain rfl := of_decide_eq_true hstarts
  obtain ⟨rest, rfl⟩ := List.head?_eq_some_iff.mp hc
  exact h rest rfl

theorem wholeTries_mantissa_eq (cs : List Char) :
    wholeTries mantissa cs =
      (if digits cs = 0 then [] else
        (wholeTries (.seq (.one isPoint) (.optional digitRun)) (cs.dropWhile Char.isDigit)
          ++ [0]).map (digits cs + ·)) ++ wholeTries (.seq (.one isPoint) digitRun) cs := by
  have happart : ∀ c d, c.isDigit → d.isDigit → digitRun.uses c →
      ¬ (Pattern.optional (.seq (.one isPoint) (.optional digitRun))).starts d := by
    intro c d _ hd _ hstarts
    have hpoint : isPoint d := by
      simpa [Pattern.optional, Pattern.starts, Pattern.nullable] using hstarts
    exact not_isDigit_of_isPoint hpoint hd
  rw [mantissa, wholeTries_alt, wholeTries_seq happart, wholeTries_digitRun]
  split
  · rfl
  · have hdrop : cs.drop (digits cs) = cs.dropWhile Char.isDigit := drop_length_takeWhile _ cs
    rw [List.flatMap_singleton, wholeTries_optional, hdrop]

theorem wholeTries_mantissa (cs : List Char) : wholeTries mantissa cs = mantissaLengths cs := by
  have hdrop : cs.drop (digits cs) = cs.dropWhile Char.isDigit := drop_length_takeWhile _ cs
  have hdigit (h : digits cs ≠ 0) : ∀ rest, cs ≠ '.' :: rest := by
    rintro rest rfl
    exact h rfl
  rw [mantissaLengths]
  -- By whether digits stand at the place and whether a point follows them.
  split
  case h_1 rest hdigits hrest =>
    rw [hdigits, hrest, List.drop_zero] at hdrop
    rw [wholeTries_mantissa_eq, if_pos hdigits, hdrop, wholeTries_point_seq, wholeTries_digitRun]
    split
    · rfl
    · rw [List.nil_append, List.map_singleton, Nat.add_comm]
  case h_2 hdigits hpoint =>
    rw [hdigits, List.drop_zero] at hdrop
    rw [wholeTries_mantissa_eq, if_pos hdigits, wholeTries_point_seq_eq_nil (hdrop ▸ hpoint)]
    rfl
  case h_3 rest hrest hdigits =>
    rw [wholeTries_mantissa_eq, if_neg hdigits, wholeTries_point_seq_eq_nil (hdigit hdigits), hrest,
      wholeTries_point_seq, wholeTries_optional, wholeTries_digitRun]
    split
    · rfl
    · simp [Nat.add_assoc]
  case h_4 hdigits hpoint _ =>
    rw [wholeTries_mantissa_eq, if_neg hdigits, wholeTries_point_seq_eq_nil (hdigit hdigits),
      wholeTries_point_seq_eq_nil hpoint]
    rfl

/-- An exponent is taken before it is left out. -/
theorem wholeTries_exponent (cs : List Char) :
    wholeTries exponent cs =
      (if exponentLength cs = 0 then [] else [exponentLength cs]) ++ [0] := by
  have hsign : ∀ c, isSign c → ¬ digitRun.starts c := fun _ => not_isDigit_of_isSign
  rw [exponent, wholeTries_optional]
  congr 1
  cases cs with
  | nil => rfl
  | cons c cs =>
      rw [exponentLength]
      split
      case isTrue hmark =>
        rw [wholeTries_one_seq (fun _ => not_isDigit_of_isExponentMark) (decide_eq_true hmark),
          wholeTries_sign_seq hsign Bool.false_ne_true, wholeTries_digitRun]
        dsimp only
        split
        · rfl
        · simp [Nat.add_assoc]
      case isFalse hmark =>
        refine wholeTries_eq_nil Bool.false_ne_true fun d hd hstarts => ?_
        obtain rfl := Option.some.inj hd
        rw [Pattern.starts, Pattern.nullable, Bool.false_and, Bool.or_false] at hstarts
        exact hmark (of_decide_eq_true hstarts)

theorem wholeTries_pattern (cs : List Char) : wholeTries pattern cs = readings cs := by
  have hsign : ∀ c, isSign c → ¬ (Pattern.seq mantissa exponent).starts c :=
    fun c hc => ordered_pattern.2.2 c ((Bool.or_false _).trans hc)
  have happart : ∀ c d, c.isDigit → d.isDigit → mantissa.uses c → ¬ exponent.starts d := by
    intro c d _ hd _ hstarts
    have hmark : isExponentMark d := by
      simpa [exponent, Pattern.optional, Pattern.starts, Pattern.nullable] using hstarts
    exact not_isDigit_of_isExponentMark hmark hd
  rw [pattern, wholeTries_sign_seq hsign Bool.false_ne_true, wholeTries_seq happart,
    wholeTries_mantissa, readings, List.map_flatMap]
  refine List.flatMap_congr fun n _ => ?_
  rw [wholeTries_exponent, List.drop_drop]
  dsimp only
  generalize exponentLength (cs.drop (signLength cs + n)) = power
  cases power with
  | zero => rfl
  | succ power => simp [Nat.add_assoc]

end Whole

/-- The first reading that ends at a word boundary is what backtracking finds. -/
theorem lengthAt_eq : lengthAt = pattern.lengthAt := by
  funext before rest
  have hfind : (readings rest).find? (endsAtBoundary rest) =
      (pattern.tries rest).find? (boundaryAt rest) := by
    rw [← wholeTries_pattern, wholeTries, List.find?_filter]
    congr 1
    funext n
    rw [Bool.eq_iff_iff, decide_eq_true_eq]
    exact and_iff_right_of_imp keepsRuns_of_boundaryAt
  rw [lengthAt, Pattern.lengthAt, hfind]

theorem filter_number_codeSpans (sections : Sections) (line : List Char) :
    (codeSpans (Catalog.assemble sections) 0 line).filter (·.category = .number) =
      (occurrences lengthAt line).map (Span.ofOccurrence 0 .number) :=
  filter_category_codeSpans sections (by decide) line

end Numeral

/-- On a line of code, the numbers are the stretches that a search with backtracking finds, and
these are the leftmost longest ones. -/
theorem numbers_leftmost_longest (sections : Sections) (text : List Char) :
    ∃ spans, classify? (Catalog.assemble sections) text = some spans ∧
      ∀ i line, (lines text)[i]? = some line → ¬ Comment.IsCommentLine (lines text) i line →
        (∀ found, LeftmostLongest (Numeral.pattern.Fits line) 0 found ↔
          found = Numeral.pattern.search line) ∧
        spans.filter (fun s => s.line = i ∧ s.category = .number) =
          (Numeral.pattern.search line).map (Span.ofPlaces i .number line) := by
  refine ⟨_, classify?_eq _ text, fun i line hget hcode => ⟨fun found =>
    Numeral.ordered_pattern.leftmostLongest_iff Numeral.not_nullable_pattern line found, ?_⟩⟩
  have hcovers := (Comment.covers_iff hget).not.mpr hcode
  rw [filter_category_classify _ hget hcovers (Numeral.filter_number_codeSpans sections line),
    Numeral.lengthAt_eq, Pattern.search]

/-- A sign counts behind a word, and a numeral that runs into a letter is cut at its point. -/
theorem numbers_leftmost_longest_behind_word :
    ∃ spans, classify? (Catalog.assemble {}) ['x', '+', '2', 'e', '3', ' ', '1', '.', '5', 'x'] =
        some spans ∧
      LeftmostLongest (Numeral.pattern.Fits ['x', '+', '2', 'e', '3', ' ', '1', '.', '5', 'x']) 0
        [(1, 5), (6, 8)] ∧
      spans.filter (fun s => s.line = 0 ∧ s.category = .number) =
        [⟨0, 1, 4, .number⟩, ⟨0, 6, 2, .number⟩] := by
  obtain ⟨spans, hspans, h⟩ :=
    numbers_leftmost_longest {} ['x', '+', '2', 'e', '3', ' ', '1', '.', '5', 'x']
  have hget : (lines ['x', '+', '2', 'e', '3', ' ', '1', '.', '5', 'x'])[0]? =
      some ['x', '+', '2', 'e', '3', ' ', '1', '.', '5', 'x'] := by decide
  obtain ⟨hfound, hnumbers⟩ := h 0 _ hget ((Comment.covers_iff hget).not.mp (by decide))
  have hsearch : Numeral.pattern.search ['x', '+', '2', 'e', '3', ' ', '1', '.', '5', 'x'] =
      [(1, 5), (6, 8)] := by decide
  refine ⟨spans, hspans, (hfound _).mpr hsearch.symm, ?_⟩
  rw [hnumbers, hsearch]
  decide

end FoamDict.Highlight
