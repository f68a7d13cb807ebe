import Mathlib.Data.List.Forall2
import FoamDict.Proofs.Document.LineEnd
import FoamDict.Proofs.Server.Store

/-!
# Sessions under either line end

Two sessions that are fed the same operations, with their texts in two forms, keep every document in
two forms. What they answer and publish depends on the lines of the documents, so it is the same
after every operation.
-/

namespace FoamDict.Server

open FoamDict.Document (Edit)

/-- The same operation with its texts in two forms. -/
inductive Operation.Recoded : Operation → Operation → Prop
  | opened (uri : Uri) (version : Int) {text text' : List Char} (h : Text.Recoded text text') :
      Recoded (.opened uri version text) (.opened uri version text')
  | changed (uri : Uri) (version : Int) {edits edits' : List Edit}
      (h : List.Forall₂ Edit.Recoded edits edits') :
      Recoded (.changed uri version edits) (.changed uri version edits')
  | handshake : Recoded .handshake .handshake
  | ready : Recoded .ready .ready
  | shutdown : Recoded .shutdown .shutdown
  | closed (uri : Uri) : Recoded (.closed uri) (.closed uri)
  | tokens (uri : Uri) : Recoded (.tokens uri) (.tokens uri)
  | hover (uri : Uri) (p : Document.Position) : Recoded (.hover uri p) (.hover uri p)
  | completion : Recoded .completion .completion

/-- Two sessions that keep the same documents in two forms. -/
structure Session.Matching (s s' : Session) : Prop where
  catalog : s.catalog = s'.catalog
  options : s.options = s'.options
  documents : ∀ uri,
    Option.Rel Document.Recoded (s.documents.get? uri) (s'.documents.get? uri)

section Stored

variable {stored stored' : Option Document} (h : Option.Rel Document.Recoded stored stored')

include h

theorem isSome_eq_of_rel : stored.isSome = stored'.isSome := by cases h <;> rfl

theorem announcement_eq_of_rel (source : String) (uri : Uri) :
    announcement source uri stored = announcement source uri stored' := by
  cases h with
  | some hd =>
      simp only [announcement, Brace.faults, hd.version, hd.text.lines_eq]
  | none => rfl

theorem rel_onDocument {op op' : Operation} (hop : op.Recoded op') (uri : Uri) :
    Option.Rel Document.Recoded (op.onDocument uri stored) (op'.onDocument uri stored') := by
  cases hop with
  | opened other version htext =>
      simp only [Operation.onDocument]
      split_ifs
      · exact .some ⟨rfl, htext⟩
      · exact h
  | changed other version hedits =>
      simp only [Operation.onDocument]
      split_ifs
      · cases h with
        | some hd => exact .some (hd.edit hedits version)
        | none => exact .none
      · exact h
  | closed other =>
      simp only [Operation.onDocument]
      split_ifs
      · exact .none
      · exact h
  | _ => exact h

end Stored

namespace Session

variable {s s' : Session} {op op' : Operation}

theorem Matching.step (h : s.Matching s') (hop : op.Recoded op') :
    (s.step op).session.Matching (s'.step op').session := by
  refine ⟨?_, ?_, fun uri => ?_⟩
  · rw [catalog_step, catalog_step, h.catalog]
  · rw [options_step, options_step, h.options]
  · rw [get?_step, get?_step]
    exact rel_onDocument (h.documents uri) hop uri

theorem Matching.announced_eq (h : s.Matching s') (hop : op.Recoded op') :
    op.announced s = op'.announced s' := by
  cases hop with
  | changed uri version hedits =>
      simp only [Operation.announced, isSome_eq_of_rel (h.documents uri)]
  | _ => rfl

theorem Matching.published_eq (h : s.Matching s') (hop : op.Recoded op') :
    (s.step op).published = (s'.step op').published := by
  rw [published_step, published_step, h.announced_eq hop, h.options]
  exact List.map_congr_left fun uri _ =>
    announcement_eq_of_rel ((h.step hop).documents uri) _ uri

theorem Matching.tokensOf_eq (h : s.Matching s') (uri : Uri) :
    s.tokensOf uri = s'.tokensOf uri := by
  -- The text is read through its lines only.
  have hrel := h.documents uri
  rw [tokensOf, tokensOf, h.catalog]
  generalize s.documents.get? uri = stored, s'.documents.get? uri = stored' at hrel ⊢
  cases hrel with
  | some hd => simp only [Highlight.classify, hd.text.lines_eq]
  | none => rfl

theorem Matching.hoverAt_eq (h : s.Matching s') (uri : Uri) (p : Document.Position) :
    s.hoverAt uri p = s'.hoverAt uri p := by
  have hrel := h.documents uri
  rw [hoverAt, hoverAt, h.catalog]
  generalize s.documents.get? uri = stored, s'.documents.get? uri = stored' at hrel ⊢
  cases hrel with
  | some hd => simp only [Option.bind_some, Keyword.Catalog.hover?, hd.text.lines_eq]
  | none => rfl

theorem answer_changed (s : Session) (uri : Uri) (version : Int) (edits : List Edit) :
    (s.step (.changed uri version edits)).answer = .nothing := by
  rw [step, change]
  split <;> rfl

theorem Matching.answer_eq (h : s.Matching s') (hop : op.Recoded op') :
    (s.step op).answer = (s'.step op').answer := by
  cases hop with
  | changed uri version hedits => rw [answer_changed, answer_changed]
  | handshake => simp only [Session.step, h.options]
  | tokens uri => exact h.tokensOf_eq uri
  | hover uri p => exact h.hoverAt_eq uri p
  | completion => simp only [Session.step, suggestions, h.catalog, h.options]
  | _ => rfl

/-- What two sessions show of an operation that came in two forms. -/
structure SameOutcome (o o' : Outcome) : Prop where
  answer : o.answer = o'.answer
  published : o.published = o'.published
  matching : o.session.Matching o'.session

theorem Matching.run (h : s.Matching s') {ops ops' : List Operation}
    (hops : List.Forall₂ Operation.Recoded ops ops') :
    List.Forall₂ SameOutcome (s.run ops) (s'.run ops') := by
  induction hops generalizing s s' with
  | nil => exact .nil
  | cons hop _ ih =>
      exact .cons ⟨h.answer_eq hop, h.published_eq hop, h.step hop⟩ (ih (h.step hop))

/-- The document with its line ends in one form. -/
def unified (d : Document) : Document := { d with text := Text.unify d.text }

theorem Matching.unified_eq (h : s.Matching s') (uri : Uri) :
    (s.documents.get? uri).map unified = (s'.documents.get? uri).map unified := by
  have hrel := h.documents uri
  generalize s.documents.get? uri = stored, s'.documents.get? uri = stored' at hrel ⊢
  cases hrel with
  | some hd =>
      simp only [Option.map_some, unified, hd.version, hd.text.unify_eq,
        Text.unify_of_return_not_mem hd.text.return_not_mem]
  | none => rfl

theorem run_recoded (catalog : Keyword.Catalog) (options : Options) {ops ops' : List Operation}
    (h : List.Forall₂ Operation.Recoded ops ops') :
    List.Forall₂ (fun o o' : Outcome => o.answer = o'.answer ∧ o.published = o'.published ∧
        ∀ uri, (o.session.documents.get? uri).map unified =
          (o'.session.documents.get? uri).map unified)
      (({ catalog, options } : Session).run ops) (({ catalog, options } : Session).run ops') := by
  have hfresh : ({ catalog, options } : Session).Matching { catalog, options } :=
    ⟨rfl, rfl, fun _ => .none⟩
  exact (hfresh.run h).imp fun _ _ ho => ⟨ho.answer, ho.published, ho.matching.unified_eq⟩

/-- Two forms of a text, edited at the end of a line that ends in a different way in each. -/
theorem run_recoded_line_end :
    List.Forall₂ Operation.Recoded
        [.opened ⟨"file:///U"⟩ 1 ['p', '\n', ' ', '1', '\n'],
          .changed ⟨"file:///U"⟩ 2 [.replace ⟨0, 9⟩ ⟨1, 1⟩ ['\n', '\n']], .tokens ⟨"file:///U"⟩]
        [.opened ⟨"file:///U"⟩ 1 ['p', '\r', '\n', ' ', '1', '\n'],
          .changed ⟨"file:///U"⟩ 2 [.replace ⟨0, 9⟩ ⟨1, 1⟩ ['\n', '\r', '\n']],
          .tokens ⟨"file:///U"⟩] ∧
      List.Forall₂ (fun o o' : Outcome => o.answer = o'.answer ∧ o.published = o'.published ∧
          ∀ uri, (o.session.documents.get? uri).map unified =
            (o'.session.documents.get? uri).map unified)
        (({} : Session).run
          [.opened ⟨"file:///U"⟩ 1 ['p', '\n', ' ', '1', '\n'],
            .changed ⟨"file:///U"⟩ 2 [.replace ⟨0, 9⟩ ⟨1, 1⟩ ['\n', '\n']],
            .tokens ⟨"file:///U"⟩])
        (({} : Session).run
          [.opened ⟨"file:///U"⟩ 1 ['p', '\r', '\n', ' ', '1', '\n'],
            .changed ⟨"file:///U"⟩ 2 [.replace ⟨0, 9⟩ ⟨1, 1⟩ ['\n', '\r', '\n']],
            .tokens ⟨"file:///U"⟩]) := by
  have hopened : Text.Recoded ['p', '\n', ' ', '1', '\n'] ['p', '\r', '\n', ' ', '1', '\n'] :=
    Text.recoded_iff.mpr (by decide)
  have hedit : Text.Recoded ['\n', '\n'] ['\n', '\r', '\n'] := Text.recoded_iff.mpr (by decide)
  have hops := List.Forall₂.cons (Operation.Recoded.opened ⟨"file:///U"⟩ 1 hopened)
    (.cons (.changed ⟨"file:///U"⟩ 2 (.cons (.replace ⟨0, 9⟩ ⟨1, 1⟩ hedit) .nil))
      (.cons (.tokens ⟨"file:///U"⟩) .nil))
  exact ⟨hops, run_recoded _ _ hops⟩

end Session

end FoamDict.Server
