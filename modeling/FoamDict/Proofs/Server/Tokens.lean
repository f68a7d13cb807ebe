import FoamDict.Proofs.Highlight.Delta
import FoamDict.Server.Session

/-!
# Token requests lose nothing

The spans of a text are put in order before they are written as a stream, so the answer to a request
for tokens reads back as just these spans.
-/

namespace FoamDict.Server.Session

open FoamDict.Highlight

theorem exists_stream_of_stored (s : Session) (uri : Uri) {d : Document}
    (h : s.documents.get? uri = some d) :
    ∃ stream, (s.step (.tokens uri)).answer = .tokens stream ∧
      Delta.decode stream = some (classify s.catalog d.text) := by
  refine ⟨Delta.encode (classify s.catalog d.text), ?_, ?_⟩
  · rw [step, tokensOf, h]
  · exact Delta.decode_encode_of_inOrder (inOrder_classify s.catalog d.text)

/-- A stream reads back as the spans it was written from exactly when they are in order; otherwise
the first one out of order is read as another span. The answer to a request for tokens reads back as
the spans of the stored text. -/
theorem tokens_lossless (spans : List Span) :
    (Delta.decode (Delta.encode spans) = some spans ↔ InOrder spans) ∧
      (¬ InOrder spans → ∃ before a behind b more, spans = before ++ a :: behind ∧
        InOrder before ∧ ¬ InOrder (before ++ [a]) ∧
        Delta.decode (Delta.encode spans) = some (before ++ b :: more) ∧ b ≠ a ∧
        more.length = behind.length) ∧
      ∀ (s : Session) (uri : Uri) (d : Document), s.documents.get? uri = some d →
        ∃ stream, (s.step (.tokens uri)).answer = .tokens stream ∧
          Delta.decode stream = some (classify s.catalog d.text) := by
  refine ⟨Delta.decode_encode_eq_iff spans, fun hspans => ?_,
    fun s uri d hd => exists_stream_of_stored s uri hd⟩
  obtain ⟨before, a, behind, rfl, hbefore, ha⟩ := Delta.exists_first_out_of_order hspans
  obtain ⟨b, more, hread, hne, hlength⟩ :=
    Delta.decode_encode_of_not_inOrder behind hbefore ha
  exact ⟨before, a, behind, b, more, rfl, hbefore, ha, hread, hne, hlength⟩

/-- A stream that leaves the second of two lines for the first, and a request for the tokens of a
stored document. -/
theorem tokens_lossless_back_up :
    (∃ before a behind b more,
        [⟨1, 4, 2, .number⟩, ⟨0, 2, 1, .string⟩] = before ++ a :: behind ∧
        InOrder before ∧ ¬ InOrder (before ++ [a]) ∧
        Delta.decode (Delta.encode [⟨1, 4, 2, .number⟩, ⟨0, 2, 1, .string⟩]) =
          some (before ++ b :: more) ∧ b ≠ a ∧ more.length = behind.length) ∧
      ∃ stream, (({ documents := [(⟨"file:///U"⟩, ⟨['p', ' ', '1'], 3⟩)] } : Session).step
          (.tokens ⟨"file:///U"⟩)).answer = .tokens stream ∧
        Delta.decode stream = some (classify Keyword.Catalog.builtin ['p', ' ', '1']) := by
  have h : ¬ InOrder [⟨1, 4, 2, .number⟩, ⟨0, 2, 1, .string⟩] := by
    simp [InOrder, Span.notAfter]
  exact ⟨(tokens_lossless _).2.1 h, (tokens_lossless []).2.2
    { documents := [(⟨"file:///U"⟩, ⟨['p', ' ', '1'], 3⟩)] } ⟨"file:///U"⟩ ⟨['p', ' ', '1'], 3⟩ rfl⟩

end FoamDict.Server.Session
