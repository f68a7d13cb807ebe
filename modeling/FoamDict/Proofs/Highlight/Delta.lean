import Mathlib.Data.List.Chain
import FoamDict.Highlight.Delta
import FoamDict.Proofs.Highlight.Order

/-!
# Reading token streams back

A reader at the place from which a span was written reads the span itself if the place is not after
it, and a later one otherwise, since differences stop at zero. So spans in order are read back one
by one, and the first one out of order is read as a different span.
-/

namespace FoamDict.Highlight

instance : Trans (fun a b : Span => (a.notAfter b : Prop)) (fun a b => (a.notAfter b : Prop))
    (fun a b => (a.notAfter b : Prop)) where
  trans {a b c} hab hbc := Span.notAfter_trans a b c hab hbc

/-- A span is in order behind `before` if it is in order behind the last of them. -/
theorem inOrder_concat_iff (before : List Span) (s : Span) :
    InOrder (before ++ [s]) ↔ InOrder before ∧ ∀ p ∈ before.getLast?, p.notAfter s := by
  simp only [InOrder, ← List.isChain_iff_pairwise, List.isChain_append, List.isChain_singleton,
    true_and, List.head?_cons, Option.mem_some_iff, forall_eq']

namespace Delta

/-- The span a reader at a place makes of a token of category `c`. -/
def read (line start : Nat) (t : DeltaToken) (c : Category) : Span :=
  ⟨line + t.deltaLine, if t.deltaLine = 0 then start + t.deltaStart else t.deltaStart, t.length, c⟩

theorem decodeFrom_cons (line start : Nat) {t : DeltaToken} {c : Category}
    (h : t.tokenType = c.code) (rest : List DeltaToken) :
    decodeFrom line start (t :: rest) =
      (decodeFrom (read line start t c).line (read line start t c).start rest).map
        (read line start t c :: ·) := by
  rw [decodeFrom, h, Category.ofCode?_code, Option.map_eq_bind]
  rfl

/-- What a reader at a place makes of a span that was written from that place. -/
def readAt (line start : Nat) (s : Span) : Span :=
  { s with
    line := max line s.line
    start := if s.line ≤ line then max start s.start else s.start }

theorem readAt_eq_self_iff (line start : Nat) (s : Span) :
    readAt line start s = s ↔ line < s.line ∨ line = s.line ∧ start ≤ s.start := by
  obtain ⟨sline, sstart, length, category⟩ := s
  simp only [readAt, Span.mk.injEq, and_true]
  by_cases h : sline ≤ line
  · rw [if_pos h]
    omega
  · rw [if_neg h]
    omega

theorem decodeFrom_encodeFrom_cons (line start : Nat) (s : Span) (rest : List Span) :
    decodeFrom line start (encodeFrom line start (s :: rest)) =
      (decodeFrom (readAt line start s).line (readAt line start s).start
        (encodeFrom s.line s.start rest)).map (readAt line start s :: ·) := by
  let t : DeltaToken := ⟨s.line - line, if s.line - line = 0 then s.start - start else s.start,
    s.length, s.category.code⟩
  have hread : read line start t s.category = readAt line start s := by
    simp only [read, readAt, t, Span.mk.injEq, and_true]
    by_cases h : s.line ≤ line
    · rw [if_pos (by omega), if_pos (by omega), if_pos h]
      omega
    · rw [if_neg (by omega), if_neg (by omega), if_neg h]
      omega
  rw [← hread]
  exact decodeFrom_cons line start rfl _

/-- A stream within the legend can be read from any place, one span for each token. -/
theorem exists_decodeFrom (line start : Nat) (tokens : List DeltaToken)
    (h : ∀ t ∈ tokens, ∃ c : Category, t.tokenType = c.code) :
    ∃ spans, decodeFrom line start tokens = some spans ∧ spans.length = tokens.length := by
  induction tokens generalizing line start with
  | nil => exact ⟨[], rfl, rfl⟩
  | cons t rest ih =>
      obtain ⟨c, hc⟩ := h t List.mem_cons_self
      obtain ⟨spans, hspans, hlength⟩ := ih (read line start t c).line (read line start t c).start
        fun t ht => h t (List.mem_cons_of_mem _ ht)
      refine ⟨read line start t c :: spans, ?_, congrArg (· + 1) hlength⟩
      rw [decodeFrom_cons line start hc, hspans, Option.map_some]

theorem tokenType_of_mem_encodeFrom {line start : Nat} {spans : List Span} {t : DeltaToken}
    (h : t ∈ encodeFrom line start spans) : ∃ c : Category, t.tokenType = c.code := by
  induction spans generalizing line start with
  | nil => cases h
  | cons s rest ih =>
      rcases List.mem_cons.mp h with rfl | h
      · exact ⟨s.category, rfl⟩
      · exact ih h

theorem length_encodeFrom (line start : Nat) (spans : List Span) :
    (encodeFrom line start spans).length = spans.length := by
  induction spans generalizing line start with
  | nil => rfl
  | cons s rest ih => exact congrArg (· + 1) (ih s.line s.start)

/-- Spans in order behind the place of `p` are read back; what follows them is read from the place
of the last one. -/
theorem decodeFrom_encodeFrom_append (p : Span) (before more : List Span)
    (h : InOrder (p :: before)) :
    decodeFrom p.line p.start (encodeFrom p.line p.start (before ++ more)) =
      (decodeFrom (before.getLast?.getD p).line (before.getLast?.getD p).start
        (encodeFrom (before.getLast?.getD p).line (before.getLast?.getD p).start more)).map
          (before ++ ·) := by
  induction before generalizing p with
  | nil => simp
  | cons s before ih =>
      obtain ⟨hfirst, hrest⟩ := List.pairwise_cons.mp h
      have hself : readAt p.line p.start s = s := by
        rw [readAt_eq_self_iff]
        exact Span.notAfter_iff.mp (hfirst s List.mem_cons_self)
      rw [List.cons_append, decodeFrom_encodeFrom_cons, hself, ih s hrest, Option.map_map,
        List.getLast?_cons, Option.getD_some]
      rfl

/-- The place from which streams are written. -/
def origin : Span := ⟨0, 0, 0, .dictionary⟩

theorem origin_notAfter (s : Span) : origin.notAfter s := by
  simp only [Span.notAfter_iff, origin]
  omega

theorem inOrder_origin_cons {spans : List Span} (h : InOrder spans) :
    InOrder (origin :: spans) :=
  List.pairwise_cons.mpr ⟨fun s _ => origin_notAfter s, h⟩

theorem decode_encode_of_inOrder {spans : List Span} (h : InOrder spans) :
    decode (encode spans) = some spans := by
  have hread := decodeFrom_encodeFrom_append origin spans [] (inOrder_origin_cons h)
  rw [List.append_nil] at hread
  rw [decode, encode]
  exact hread.trans (by simp [encodeFrom, decodeFrom])

/-- The first span out of order is read as another one. -/
theorem decode_encode_of_not_inOrder {before : List Span} {s : Span} (behind : List Span)
    (hbefore : InOrder before)
    (hs : ¬ InOrder (before ++ [s])) :
    ∃ s' behind', decode (encode (before ++ s :: behind)) = some (before ++ s' :: behind') ∧
      s' ≠ s ∧ behind'.length = behind.length := by
  have hlast : ¬ (before.getLast?.getD origin).notAfter s := by
    intro hle
    refine hs ((inOrder_concat_iff before s).mpr ⟨hbefore, fun p hp => ?_⟩)
    rwa [Option.mem_def.mp hp] at hle
  have hread := decodeFrom_encodeFrom_append origin before (s :: behind)
    (inOrder_origin_cons hbefore)
  -- The reader stands at the last span before `s`, which comes after `s`; differences stop at zero,
  -- so it cannot step back.
  generalize before.getLast?.getD origin = last at hlast hread
  obtain ⟨behind', hbehind, hlength⟩ := exists_decodeFrom (readAt last.line last.start s).line
    (readAt last.line last.start s).start (encodeFrom s.line s.start behind)
    fun t => tokenType_of_mem_encodeFrom
  rw [length_encodeFrom] at hlength
  rw [decodeFrom_encodeFrom_cons, hbehind] at hread
  refine ⟨readAt last.line last.start s, behind', hread, fun heq => hlast ?_, hlength⟩
  exact Span.notAfter_iff.mpr ((readAt_eq_self_iff _ _ s).mp heq)

theorem exists_first_out_of_order {spans : List Span} (h : ¬ InOrder spans) :
    ∃ before s behind, spans = before ++ s :: behind ∧ InOrder before ∧
      ¬ InOrder (before ++ [s]) := by
  induction spans using List.reverseRecOn with
  | nil => exact absurd List.Pairwise.nil h
  | append_singleton spans s ih =>
      by_cases hspans : InOrder spans
      · exact ⟨spans, s, [], rfl, hspans, h⟩
      · obtain ⟨before, t, behind, rfl, hbefore, ht⟩ := ih hspans
        exact ⟨before, t, behind ++ [s], by simp, hbefore, ht⟩

theorem decode_encode_eq_iff (spans : List Span) :
    decode (encode spans) = some spans ↔ InOrder spans := by
  refine ⟨fun hread => by_contra fun h => ?_, decode_encode_of_inOrder⟩
  obtain ⟨before, s, behind, rfl, hbefore, hs⟩ := exists_first_out_of_order h
  obtain ⟨s', behind', hread', hne, _⟩ :=
    decode_encode_of_not_inOrder behind hbefore hs
  have heq := Option.some.inj (hread'.symm.trans hread)
  rw [List.append_cancel_left_eq] at heq
  exact hne (List.cons.inj heq).1

end Delta

end FoamDict.Highlight
