import Mathlib.Data.List.Pairwise
import FoamDict.Proofs.Text.Pattern
import FoamDict.Proofs.Text.Word
import FoamDict.Text.Name

/-!
# Names are longest runs of word characters

A scan for words takes exactly the longest runs of word characters of the line, and a scan for names
those of them that do not start with a digit. The pattern of names has no other matches: a run that
it starts to take it takes to the end, since no word boundary lies inside. Between two such runs
stands one character at least, so no column touches two of them.
-/

namespace FoamDict.Text

/-- The cut is a longest run of word characters. -/
structure IsRun (line : List Char) (c : Cut) (behind : List Char) : Prop where
  line_eq : line = c.before ++ (c.text ++ behind)
  text_ne_nil : c.text ≠ []
  all_word : ∀ d ∈ c.text, isWordChar d
  not_before : c.before.getLast?.any isWordChar = false
  not_behind : behind.head?.any isWordChar = false

/-- The cut is a longest run of word characters and does not start with a digit. -/
def IsName (line : List Char) (c : Cut) : Prop :=
  (∃ behind, IsRun line c behind) ∧ c.text.head?.any Char.isDigit = false

/-- The column lies on the cut or right behind it. -/
def Cut.Touches (c : Cut) (column : Nat) : Prop :=
  c.column ≤ column ∧ column ≤ c.column + units c.text

instance (c : Cut) (column : Nat) : Decidable (c.Touches column) :=
  inferInstanceAs (Decidable (_ ∧ _))

theorem takeWhile_append_eq_iff {p : Char → Bool} {cs behind : List Char} :
    (cs ++ behind).takeWhile p = cs ↔ (∀ c ∈ cs, p c) ∧ behind.head?.any p = false := by
  constructor
  · intro h
    have hall : ∀ c ∈ cs, p c := fun c hc => List.mem_takeWhile_imp (h ▸ hc)
    refine ⟨hall, ?_⟩
    rw [List.takeWhile_append_of_pos hall] at h
    have hnone : behind.takeWhile p = [] := List.append_right_eq_self.mp h
    cases behind with
    | nil => rfl
    | cons c behind => simpa [List.takeWhile_cons] using hnone
  · rintro ⟨hall, hbehind⟩
    rw [List.takeWhile_append_of_pos hall]
    cases behind with
    | nil => simp
    | cons c behind =>
        rw [List.head?_cons, Option.any_some] at hbehind
        simp [hbehind]

namespace IsRun

variable {line behind : List Char} {c : Cut}

theorem takeWhile_eq (h : IsRun line c behind) :
    (c.text ++ behind).takeWhile isWordChar = c.text :=
  takeWhile_append_eq_iff.mpr ⟨h.all_word, h.not_behind⟩

theorem wordLength_eq (h : IsRun line c behind) :
    wordLength c.before.getLast? (c.text ++ behind) = c.text.length := by
  rw [wordLength, h.not_before, if_neg Bool.false_ne_true, h.takeWhile_eq]

end IsRun

/-- A scan takes what its rule gives at a place that nothing before reaches past. -/
theorem mem_cuts_of_reach {rule : LengthRule} {line behind : List Char} {c : Cut}
    (hline : line = c.before ++ (c.text ++ behind)) (hne : c.text ≠ [])
    (hrule : rule c.before.getLast? (c.text ++ behind) = c.text.length)
    (hreach : ∀ first rest, line = first ++ rest → first.length < c.before.length →
      first.length + rule first.getLast? rest ≤ c.before.length) : c ∈ cuts rule line := by
  suffices hfrom : ∀ (cs first : List Char) (skip : Nat), line = first ++ cs →
      first.length + skip ≤ c.before.length → c ∈ cutsFrom rule first skip cs from
    hfrom line [] 0 rfl (Nat.zero_le _)
  intro cs
  induction cs with
  | nil =>
      intro first skip hfirst hle
      have hlength := congrArg List.length (hline.symm.trans hfirst)
      have hpos := List.length_pos_of_ne_nil hne
      simp only [List.length_append, List.length_nil] at hlength
      omega
  | cons d cs ih =>
      intro first skip hfirst hle
      have hnext (k : Nat) (hk : first.length + 1 + k ≤ c.before.length) :
          c ∈ cutsFrom rule (first ++ [d]) k cs := by
        refine ih (first ++ [d]) k (by rw [hfirst]; simp) ?_
        rwa [List.length_append, List.length_singleton]
      cases skip with
      | succ skip => exact hnext skip (by omega)
      | zero =>
          rcases Nat.eq_or_lt_of_le hle with heq | hlt
          · -- The scan has come to the start of the cut.
            obtain ⟨rfl, hcs⟩ := List.append_inj (hfirst.symm.trans hline) heq
            obtain ⟨n, hn⟩ := Nat.exists_eq_add_one_of_ne_zero (List.length_pos_of_ne_nil hne).ne'
            rw [← hcs, hn] at hrule
            have htake : d :: cs.take n = c.text := by
              rw [← List.take_succ_cons, ← hn, hcs, List.take_left]
            rw [cutsFrom_cons_of_eq_succ hrule, htake]
            exact List.mem_cons_self
          · have hstep := hreach first (d :: cs) hfirst hlt
            cases hzero : rule first.getLast? (d :: cs) with
            | zero =>
                rw [cutsFrom_cons_of_eq_zero hzero]
                exact hnext 0 hlt
            | succ n =>
                rw [hzero] at hstep
                rw [cutsFrom_cons_of_eq_succ hzero]
                exact List.mem_cons_of_mem _ (hnext n (by omega))

/-- A rule that only takes word characters does not reach past the start of a run. -/
theorem IsRun.reach {rule : LengthRule} {line behind first rest : List Char} {c : Cut}
    (h : IsRun line c behind)
    (hrule : ∀ before rest, rule before rest ≤ (rest.takeWhile isWordChar).length)
    (hfirst : line = first ++ rest) (hlt : first.length < c.before.length) :
    first.length + rule first.getLast? rest ≤ c.before.length := by
  obtain ⟨between, hbetween⟩ : first <+: c.before :=
    List.prefix_of_prefix_length_le ⟨rest, hfirst.symm⟩ ⟨_, h.line_eq.symm⟩ hlt.le
  have hne : between ≠ [] := by
    rintro rfl
    rw [List.append_nil] at hbetween
    rw [hbetween] at hlt
    exact Nat.lt_irrefl _ hlt
  have hrest : rest = between ++ (c.text ++ behind) := by
    have hline := hfirst.symm.trans h.line_eq
    rw [← hbetween, List.append_assoc] at hline
    exact List.append_cancel_left hline
  by_contra! hpast
  -- The rule would have taken the character right before the run.
  have hlong : between.length ≤ (rest.takeWhile isWordChar).length := by
    have hle := hrule first.getLast? rest
    have hlength := congrArg List.length hbetween
    rw [List.length_append] at hlength
    omega
  have hall := ((Pattern.le_length_takeWhile_iff isWordChar rest between.length).mp hlong).2
  rw [hrest, List.take_left] at hall
  have hword := hall _ (List.getLast_mem hne)
  have hbefore := h.not_before
  rw [← hbetween, List.getLast?_append_of_ne_nil _ hne, List.getLast?_eq_some_getLast hne,
    Option.any_some, hword] at hbefore
  cases hbefore

theorem wordLength_le (before : Option Char) (rest : List Char) :
    wordLength before rest ≤ (rest.takeWhile isWordChar).length := by
  rw [wordLength]
  split
  · exact Nat.zero_le _
  · exact Nat.le_refl _

theorem IsRun.of_isOn {line behind : List Char} {c : Cut} (h : c.IsOn wordLength line behind) :
    IsRun line c behind := by
  have hlength := h.length_ne_zero
  have htext := h.text_eq
  rw [wordLength] at hlength htext
  split at hlength
  case isTrue => exact absurd rfl hlength
  case isFalse hbefore =>
    rw [if_neg hbefore, ← List.prefix_iff_eq_take.mp (List.takeWhile_prefix isWordChar)] at htext
    have hrun := takeWhile_append_eq_iff.mp htext.symm
    exact ⟨h.line_eq, h.text_ne_nil, hrun.1, Bool.not_eq_true _ ▸ hbefore, hrun.2⟩

/-- Words are the longest runs of word characters. -/
theorem mem_cuts_wordLength_iff {line : List Char} {c : Cut} :
    c ∈ cuts wordLength line ↔ ∃ behind, IsRun line c behind := by
  constructor
  · intro h
    obtain ⟨behind, hon⟩ := isOn_of_mem_cuts h
    exact ⟨behind, .of_isOn hon⟩
  · rintro ⟨behind, h⟩
    exact mem_cuts_of_reach h.line_eq h.text_ne_nil h.wordLength_eq fun _ _ =>
      h.reach wordLength_le

section Names

theorem isNameStart_iff (c : Char) : isNameStart c ↔ isWordChar c ∧ ¬ c.isDigit := by
  have halpha (h : c.isAlpha) : ¬ c.isDigit := by
    have hletter : 'A'.val ≤ c.val := by
      rcases Bool.or_eq_true_iff.mp h with hupper | hlower
      · exact (of_decide_eq_true hupper).1
      · have hsmall : 'a'.val ≤ c.val := of_decide_eq_true (Bool.and_eq_true_iff.mp hlower).1
        exact UInt32.le_trans (by decide : 'A'.val ≤ 'a'.val) hsmall
    simp only [Char.isDigit]
    grind
  have hunderscore (h : c = '_') : ¬ c.isDigit := by
    subst h
    decide
  rw [isNameStart, isWordChar, Char.isAlphanum]
  grind

/-- A name is a word that starts as one. -/
theorem nameLength_eq (before : Option Char) (rest : List Char) :
    nameLength before rest = if rest.head?.any isNameStart then wordLength before rest else 0 := by
  cases rest with
  | nil => rfl
  | cons c cs =>
      rw [nameLength, wordLength, isBoundary, List.head?_cons, Option.any_some, Option.any_some]
      by_cases hstart : isNameStart c
      · have hword := ((isNameStart_iff c).mp hstart).1
        cases before.any isWordChar <;> simp [hstart, hword]
      · simp [hstart]

theorem nameLength_le (before : Option Char) (rest : List Char) :
    nameLength before rest ≤ (rest.takeWhile isWordChar).length := by
  rw [nameLength_eq]
  split
  · exact wordLength_le before rest
  · exact Nat.zero_le _

variable {line behind : List Char} {c c' : Cut} {column : Nat}

theorem IsRun.head_isNameStart_iff (h : IsRun line c behind) :
    (c.text ++ behind).head?.any isNameStart ↔ c.text.head?.any Char.isDigit = false := by
  obtain ⟨d, cs, htext⟩ := List.exists_cons_of_ne_nil h.text_ne_nil
  have hword := h.all_word d (by rw [htext]; exact List.mem_cons_self)
  rw [htext, List.cons_append, List.head?_cons, List.head?_cons, Option.any_some, Option.any_some,
    isNameStart_iff, and_iff_right hword, Bool.not_eq_true]

theorem mem_cuts_nameLength_iff : c ∈ cuts nameLength line ↔ IsName line c := by
  constructor
  · intro h
    obtain ⟨behind, hon⟩ := isOn_of_mem_cuts h
    have hlength := hon.length_ne_zero
    have htext := hon.text_eq
    rw [nameLength_eq] at hlength htext
    split at hlength
    case isFalse => exact absurd rfl hlength
    case isTrue hstart =>
      rw [if_pos hstart] at htext
      have hrun : IsRun line c behind := .of_isOn ⟨hon.line_eq, hon.text_ne_nil, htext⟩
      exact ⟨⟨behind, hrun⟩, hrun.head_isNameStart_iff.mp hstart⟩
  · rintro ⟨⟨behind, h⟩, hdigit⟩
    have hlength : nameLength c.before.getLast? (c.text ++ behind) = c.text.length := by
      rw [nameLength_eq, if_pos (h.head_isNameStart_iff.mpr hdigit), h.wordLength_eq]
    exact mem_cuts_of_reach h.line_eq h.text_ne_nil hlength fun _ _ => h.reach nameLength_le

/-- Each cut starts behind the one before. -/
theorem pairwise_before_cuts (rule : LengthRule) (line : List Char) :
    (cuts rule line).Pairwise fun a b => a.before.length < b.before.length := by
  refine (pairwise_cuts line).imp_of_mem fun {a b} ha _ hprefix => ?_
  have hpos := List.length_pos_of_ne_nil (text_ne_nil_of_mem_cuts ha)
  have hle := hprefix.length_le
  rw [List.length_append] at hle
  omega

theorem cuts_nameLength_eq (line : List Char) :
    cuts nameLength line =
      (cuts wordLength line).filter fun c => !c.text.head?.any Char.isDigit := by
  let earlier (a b : Cut) : Prop := a.before.length < b.before.length
  have : Std.Irrefl earlier := ⟨fun _ => Nat.lt_irrefl _⟩
  have : Std.Antisymm earlier := ⟨fun _ _ h h' => absurd h' (Nat.lt_asymm h)⟩
  refine List.Pairwise.eq_of_mem_iff (r := earlier) (pairwise_before_cuts nameLength line)
    ((pairwise_before_cuts wordLength line).filter _) fun c => ?_
  rw [mem_cuts_nameLength_iff, List.mem_filter, mem_cuts_wordLength_iff, IsName,
    Bool.not_eq_true']

/-- The names of a line are what a search for names takes. -/
theorem names_eq_map_cuts (line : List Char) :
    names line = (cuts nameLength line).map Cut.occurrence := by
  rw [names, words, occurrences_eq_map_cuts, List.filter_map, cuts_nameLength_eq]
  rfl

/-- No column touches two names. -/
theorem IsName.eq_of_touches (h : IsName line c) (h' : IsName line c') (ht : c.Touches column)
    (ht' : c'.Touches column) : c = c' := by
  let meets (a b : Cut) : Prop := a.Touches column → b.Touches column → a = b
  have : Std.Symm meets := ⟨fun _ _ hab hb ha => (hab ha hb).symm⟩
  have happart := pairwise_words line
  rw [words, occurrences_eq_map_cuts, List.pairwise_map] at happart
  have hmeets : (cuts wordLength line).Pairwise meets := by
    refine happart.imp fun {a b} hab ha hb => ?_
    exact absurd (ha.2.trans_lt hab) (Nat.not_lt.mpr hb.1)
  exact hmeets.forall_of_forall (fun _ _ _ _ => rfl) (mem_cuts_wordLength_iff.mpr h.1)
    (mem_cuts_wordLength_iff.mpr h'.1) ht ht'

end Names

/-- The pattern `[A-Za-z_][A-Za-z0-9_]*`. -/
def namePattern : Pattern := .seq (.one isNameStart) (.optional (.run isWordChar))

/-- The pattern takes all word characters behind the first one before it takes fewer. -/
theorem tries_namePattern {c : Char} (h : isNameStart c) (cs : List Char) :
    ∃ fewer, namePattern.tries (c :: cs) =
      ((cs.takeWhile isWordChar).length + 1) :: fewer := by
  simp only [namePattern, Pattern.optional, Pattern.tries, h, if_true, List.flatMap_cons,
    List.flatMap_nil, List.append_nil, List.drop_succ_cons, List.drop_zero]
  cases (cs.takeWhile isWordChar).length with
  | zero => exact ⟨[], rfl⟩
  | succ n =>
      rw [List.range'_1_concat, List.reverse_concat, List.cons_append, List.map_cons,
        Nat.add_comm 1 n, Nat.add_comm 1 (n + 1)]
      exact ⟨_, rfl⟩

/-- A longest run ends at a word boundary. -/
theorem boundaryAt_length_takeWhile {c : Char} (h : isWordChar c) (cs : List Char) :
    boundaryAt (c :: cs) ((cs.takeWhile isWordChar).length + 1) := by
  let run := c :: cs.takeWhile isWordChar
  have hsplit : c :: cs = run ++ cs.dropWhile isWordChar := by
    rw [List.cons_append, List.takeWhile_append_dropWhile]
  have hall : ∀ d ∈ run, isWordChar d := by
    intro d hd
    rcases List.mem_cons.mp hd with rfl | hd
    · exact h
    · exact List.mem_takeWhile_imp hd
  have hlast : run.getLast?.any isWordChar := by
    rw [List.getLast?_eq_some_getLast (List.cons_ne_nil _ _), Option.any_some]
    exact hall _ (List.getLast_mem _)
  have hbehind : (cs.dropWhile isWordChar).head?.any isWordChar = false := by
    have hnot := List.head?_dropWhile_not isWordChar cs
    cases hhead : (cs.dropWhile isWordChar).head? with
    | none => rfl
    | some d => rwa [hhead] at hnot
  have hboundary := boundaryAt_length run (cs.dropWhile isWordChar)
  rw [← hsplit, isBoundary, hlast, hbehind] at hboundary
  exact hboundary

/-- Backtracking for the pattern of names comes to a whole run or to nothing. -/
theorem lengthAt_namePattern : namePattern.lengthAt = nameLength := by
  funext before rest
  cases rest with
  | nil =>
      rw [Pattern.lengthAt]
      split <;> rfl
  | cons c cs =>
      rw [Pattern.lengthAt, nameLength, List.head?_cons]
      by_cases hstart : isNameStart c
      · obtain ⟨fewer, htries⟩ := tries_namePattern hstart cs
        have hend := boundaryAt_length_takeWhile ((isNameStart_iff c).mp hstart).1 cs
        rw [htries, List.find?_cons_of_pos hend, Option.getD_some, hstart, Bool.and_true]
      · have hnone : namePattern.tries (c :: cs) = [] := by
          simp [namePattern, Pattern.tries, hstart]
        rw [hnone, Bool.eq_false_iff.mpr hstart, Bool.and_false, List.find?_nil, Option.getD_none,
          ite_self]
        rfl

end FoamDict.Text
