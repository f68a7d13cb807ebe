import FoamDict.Proofs.Server.Publication

/-!
# Documents do not interfere

What an operation shows depends on the document at its own address only, and so does what it leaves
there. Two sessions that agree at some addresses therefore go on to agree there, whatever only one
of them does elsewhere. Opening a document makes two sessions agree at its address, so everything
earlier there is forgotten.
-/

namespace FoamDict.Server

namespace Operation

/-- The address an operation comes with. -/
def address? : Operation → Option Uri
  | .opened uri _ _ => some uri
  | .changed uri _ _ => some uri
  | .closed uri => some uri
  | .tokens uri => some uri
  | .hover uri _ => some uri
  | _ => none

/-- Whether an operation asks for something and changes nothing. -/
def isRequest : Operation → Bool
  | .tokens _ => true
  | .hover _ _ => true
  | .completion => true
  | _ => false

variable {op : Operation} {uri : Uri}

theorem address?_of_mem_announced {s : Session} (h : uri ∈ op.announced s) :
    op.address? = some uri ∧ op.isRequest = false := by
  cases op with
  | opened other version text => exact ⟨congrArg some (List.mem_singleton.mp h).symm, rfl⟩
  | changed other version edits =>
      simp only [announced] at h
      split_ifs at h
      · exact ⟨congrArg some (List.mem_singleton.mp h).symm, rfl⟩
      · cases h
  | closed other => exact ⟨congrArg some (List.mem_singleton.mp h).symm, rfl⟩
  | _ => cases h

theorem not_mem_announced_of_spared (s : Session)
    (h : op.isRequest ∨ op.address? ≠ some uri) : uri ∉ op.announced s := by
  intro hmem
  obtain ⟨haddress, hrequest⟩ := address?_of_mem_announced hmem
  rw [hrequest] at h
  exact h.resolve_left Bool.false_ne_true haddress

end Operation

/-- What the other side sees of an operation. -/
def Outcome.shown (o : Outcome) : Answer × List Publication := (o.answer, o.published)

namespace Session

/-- The two sessions differ at most in the documents at other addresses than the known ones. -/
structure AgreeOn (known : Uri → Prop) (s s' : Session) : Prop where
  catalog : s.catalog = s'.catalog
  options : s.options = s'.options
  documents : ∀ uri, known uri → s.documents.get? uri = s'.documents.get? uri

variable {known : Uri → Prop} {s s' : Session} {op : Operation} {ops : List Operation} {uri : Uri}

theorem AgreeOn.refl (known : Uri → Prop) (s : Session) : AgreeOn known s s :=
  ⟨rfl, rfl, fun _ _ => rfl⟩

theorem AgreeOn.step (h : AgreeOn known s s') (op : Operation) :
    AgreeOn known (s.step op).session (s'.step op).session := by
  refine ⟨?_, ?_, fun uri huri => ?_⟩
  · rw [catalog_step, catalog_step, h.catalog]
  · rw [options_step, options_step, h.options]
  · rw [get?_step, get?_step, h.documents uri huri]

/-- An operation that spares the known addresses can be left out of one of the two runs. -/
theorem AgreeOn.skip (h : AgreeOn known s s')
    (hop : ∀ uri, known uri → op.isRequest ∨ op.address? ≠ some uri) :
    AgreeOn known (s.step op).session s' := by
  refine ⟨?_, ?_, fun uri huri => ?_⟩
  · rw [catalog_step, h.catalog]
  · rw [options_step, h.options]
  · have hspared := Operation.not_mem_announced_of_spared s (hop uri huri)
    rw [get?_step_of_not_mem s op uri hspared, h.documents uri huri]

theorem AgreeOn.opened (h : AgreeOn (· ≠ uri) s s') (version : Int) (text : List Char) :
    AgreeOn (fun _ => True) (s.step (.opened uri version text)).session
      (s'.step (.opened uri version text)).session := by
  have hstep := h.step (.opened uri version text)
  refine ⟨hstep.catalog, hstep.options, fun other _ => ?_⟩
  by_cases hother : other = uri
  · subst hother
    rw [get?_step, get?_step]
    simp only [Operation.onDocument, if_true]
  · exact hstep.documents other hother

theorem AgreeOn.shown_opened (h : AgreeOn known s s') (uri : Uri) (version : Int)
    (text : List Char) :
    (s.step (.opened uri version text)).shown = (s'.step (.opened uri version text)).shown := by
  simp only [Outcome.shown, Session.step, store, publication, h.options]

theorem AgreeOn.announced_eq (h : AgreeOn known s s')
    (hop : ∀ uri, op.address? = some uri → known uri) : op.announced s = op.announced s' := by
  cases op with
  | changed uri version edits =>
      rw [Operation.announced, Operation.announced, h.documents uri (hop uri rfl)]
  | _ => rfl

/-- Operations at known addresses show the same in both sessions. -/
theorem AgreeOn.shown_eq (h : AgreeOn known s s')
    (hop : ∀ uri, op.address? = some uri → known uri) :
    (s.step op).shown = (s'.step op).shown := by
  have hpublished : (s.step op).published = (s'.step op).published := by
    rw [published_step, published_step, h.announced_eq hop, h.options]
    refine List.map_congr_left fun uri huri => ?_
    have haddress := (Operation.address?_of_mem_announced huri).1
    rw [(h.step op).documents uri (hop uri haddress)]
  have hanswer : (s.step op).answer = (s'.step op).answer := by
    cases op with
    | handshake => simp only [Session.step, h.options]
    | changed uri version edits =>
        simp only [Session.step, change, h.documents uri (hop uri rfl)]
        split <;> rfl
    | tokens uri => simp only [Session.step, tokensOf, h.documents uri (hop uri rfl), h.catalog]
    | hover uri p => simp only [Session.step, hoverAt, h.documents uri (hop uri rfl), h.catalog]
    | completion => simp only [Session.step, suggestions, h.catalog, h.options]
    | _ => rfl
  rw [Outcome.shown, Outcome.shown, hanswer, hpublished]

theorem AgreeOn.run_eq (h : AgreeOn known s s')
    (hops : ∀ op ∈ ops, ∀ uri, op.address? = some uri → known uri) :
    (s.run ops).map Outcome.shown = (s'.run ops).map Outcome.shown := by
  induction ops generalizing s s' with
  | nil => rfl
  | cons op ops ih =>
      have hrest := ih (h.step op) fun op hop => hops op (List.mem_cons_of_mem _ hop)
      rw [run, run, List.map_cons, List.map_cons, hrest, h.shown_eq (hops op List.mem_cons_self)]

/-- Leaving out the operations at one address changes nothing at the others. -/
theorem agreeOn_filter (s : Session) (uri : Uri) (ops : List Operation) :
    AgreeOn (· ≠ uri) (s.after ops) (s.after (ops.filter (·.address? ≠ some uri))) := by
  induction ops using List.reverseRecOn with
  | nil => exact AgreeOn.refl _ s
  | append_singleton ops op ih =>
      rw [List.filter_append, after_concat]
      by_cases hop : op.address? = some uri
      · rw [List.filter_cons_of_neg (by simp [hop]), List.filter_nil, List.append_nil]
        refine ih.skip fun other hother => Or.inr fun heq => hother ?_
        exact Option.some.inj (heq.symm.trans hop)
      · rw [List.filter_cons_of_pos (by simp [hop]), List.filter_nil, after_concat]
        exact ih.step op

/-- A document that is not stored stays so until it is opened. -/
theorem get?_after_of_not_opened (hnone : s.documents.get? uri = none)
    (hops : ∀ version text, .opened uri version text ∉ ops) :
    (s.after ops).documents.get? uri = none := by
  induction ops using List.reverseRecOn with
  | nil => exact hnone
  | append_singleton ops op ih =>
      have hstored := ih fun version text hmem => hops version text (List.mem_append_left _ hmem)
      rw [after_concat, get?_step, hstored]
      cases op with
      | opened other version text =>
          refine if_neg fun heq => hops version text ?_
          rw [heq]
          exact List.mem_append_right _ List.mem_cons_self
      | changed other version edits => exact ite_self none
      | closed other => exact ite_self none
      | _ => rfl

theorem answer_of_not_stored (hnone : s.documents.get? uri = none) :
    (s.step (.tokens uri)).answer = .nothing ∧ ∀ p, (s.step (.hover uri p)).answer = .nothing := by
  refine ⟨?_, fun p => ?_⟩
  · simp only [Session.step, tokensOf, hnone]
  · simp only [Session.step, hoverAt, hnone, Option.bind_none]

end Session

/-- A run with marks for the operations that stay when the others are left out. -/
abbrev MarkedRun := List (Operation × Bool)

namespace MarkedRun

def whole (run : MarkedRun) : List Operation := run.map (·.1)

def kept (run : MarkedRun) : List Operation := (run.filter (·.2)).map (·.1)

/-- The outcomes of the kept operations when the whole run is made. -/
def outcomes (run : MarkedRun) (s : Session) : List Outcome :=
  (((s.run run.whole).zip run).filter (·.2.2)).map (·.1)

/-- Left out are all operations at other addresses, and besides only requests. -/
structure KeepsTo (uri : Uri) (run : MarkedRun) : Prop where
  stays : ∀ m ∈ run, m.2 = true → m.1.address? = none ∨ m.1.address? = some uri
  leaves : ∀ m ∈ run, m.2 = false →
    m.1.isRequest ∨ m.1.address? ≠ none ∧ m.1.address? ≠ some uri

variable {s s' : Session} {op : Operation} {uri : Uri} {run : MarkedRun}

theorem KeepsTo.tail {m : Operation × Bool} (h : KeepsTo uri (m :: run)) : KeepsTo uri run :=
  ⟨fun m hm => h.stays m (List.mem_cons_of_mem _ hm),
    fun m hm => h.leaves m (List.mem_cons_of_mem _ hm)⟩

theorem KeepsTo.address_eq (h : KeepsTo uri ((op, true) :: run)) :
    ∀ other, op.address? = some other → other = uri := by
  intro other hother
  rcases h.stays (op, true) List.mem_cons_self rfl with hnone | hsome
  · cases hnone.symm.trans hother
  · exact Option.some.inj (hother.symm.trans hsome)

theorem KeepsTo.spares (h : KeepsTo uri ((op, false) :: run)) :
    op.isRequest ∨ op.address? ≠ some uri :=
  (h.leaves (op, false) List.mem_cons_self rfl).imp id And.right

theorem outcomes_cons_kept :
    outcomes ((op, true) :: run) s = s.step op :: outcomes run (s.step op).session := rfl

theorem outcomes_cons_left :
    outcomes ((op, false) :: run) s = outcomes run (s.step op).session := rfl

theorem KeepsTo.shown_eq (h : KeepsTo uri run) (hs : s.AgreeOn (· = uri) s') :
    (run.outcomes s).map Outcome.shown = (s'.run run.kept).map Outcome.shown := by
  induction run generalizing s s' with
  | nil => rfl
  | cons m run ih =>
      obtain ⟨op, stays⟩ := m
      cases stays with
      -- A kept operation is a step of both runs, one that is left out of the whole run only.
      | true =>
          have hop := hs.shown_eq h.address_eq
          have hrest := ih h.tail (hs.step op)
          rw [outcomes_cons_kept, List.map_cons, hop, hrest]
          rfl
      | false =>
          rw [outcomes_cons_left, ih h.tail (hs.skip fun other hother => hother ▸ h.spares)]
          rfl

theorem KeepsTo.publishedFor_eq (h : KeepsTo uri run) (hs : s.AgreeOn (· = uri) s') :
    s.publishedFor uri run.whole = s'.publishedFor uri run.kept := by
  induction run generalizing s s' with
  | nil => rfl
  | cons m run ih =>
      obtain ⟨op, stays⟩ := m
      cases stays with
      | true =>
          have hop : (s.step op).published = (s'.step op).published :=
            congrArg Prod.snd (hs.shown_eq h.address_eq)
          change s.publishedFor uri (op :: whole run) = s'.publishedFor uri (op :: kept run)
          rw [Session.publishedFor_cons, Session.publishedFor_cons, hop, ih h.tail (hs.step op)]
      | false =>
          have hnothing := s.published_filter_of_not_mem op uri
            (Operation.not_mem_announced_of_spared s h.spares)
          have hskip := hs.skip fun other hother => hother ▸ h.spares
          change s.publishedFor uri (op :: whole run) = s'.publishedFor uri (kept run)
          rw [Session.publishedFor_cons, hnothing, List.nil_append, ih h.tail hskip]

end MarkedRun

namespace Session

/-- What is shown for an address stays the same without the operations elsewhere and without
requests. Behind an opening everything is as if nothing had been done there before, and behind a
closing there is nothing to show until the next opening. -/
theorem run_isolated (s : Session) (uri : Uri) :
    (∀ run : MarkedRun, run.KeepsTo uri →
      (run.outcomes s).map Outcome.shown = (s.run run.kept).map Outcome.shown ∧
        s.publishedFor uri run.whole = s.publishedFor uri run.kept) ∧
    (∀ before version text behind,
      ((s.after before).run (.opened uri version text :: behind)).map Outcome.shown =
        ((s.after (before.filter (·.address? ≠ some uri))).run
          (.opened uri version text :: behind)).map Outcome.shown) ∧
    ∀ before behind, (∀ version text, .opened uri version text ∉ behind) →
      ((s.after (before ++ .closed uri :: behind)).step (.tokens uri)).answer = .nothing ∧
        ∀ p,
          ((s.after (before ++ .closed uri :: behind)).step (.hover uri p)).answer = .nothing := by
  refine ⟨fun run hrun => ?_, fun before version text behind => ?_, fun before behind hbehind => ?_⟩
  · have hs := AgreeOn.refl (· = uri) s
    exact ⟨hrun.shown_eq hs, hrun.publishedFor_eq hs⟩
  · have hs := agreeOn_filter s uri before
    have hlater := (hs.opened version text).run_eq (fun op (_ : op ∈ behind) _ _ => trivial)
    rw [run, run, List.map_cons, List.map_cons, hs.shown_opened, hlater]
  · apply answer_of_not_stored
    rw [List.append_cons, after_append, after_concat]
    refine get?_after_of_not_opened ?_ hbehind
    rw [get?_step, Operation.onDocument, if_pos rfl]

/-- A run with a second document and a request left out, an opening of a document that is already
open, and a change behind a closing. -/
theorem run_isolated_two_documents :
    (∃ run : MarkedRun, run = [(.opened ⟨"file:///U"⟩ 1 ['\x7d'], true),
          (.opened ⟨"file:///p"⟩ 1 ['\x7b'], false), (.tokens ⟨"file:///U"⟩, false),
          (.changed ⟨"file:///U"⟩ 2 [.replace ⟨0, 0⟩ ⟨0, 1⟩ ['5']], true),
          (.closed ⟨"file:///p"⟩, false), (.tokens ⟨"file:///U"⟩, true)] ∧
        (run.outcomes {}).map Outcome.shown = (({} : Session).run run.kept).map Outcome.shown ∧
        ({} : Session).publishedFor ⟨"file:///U"⟩ run.whole =
          ({} : Session).publishedFor ⟨"file:///U"⟩ run.kept) ∧
      ((({} : Session).after [.opened ⟨"file:///U"⟩ 1 ['\x7b']]).run
          [.opened ⟨"file:///U"⟩ 1 ['p'], .tokens ⟨"file:///U"⟩]).map Outcome.shown =
        (({} : Session).run
          [.opened ⟨"file:///U"⟩ 1 ['p'], .tokens ⟨"file:///U"⟩]).map Outcome.shown ∧
      ((({} : Session).after ([.opened ⟨"file:///U"⟩ 1 ['p']] ++ .closed ⟨"file:///U"⟩ ::
        [.changed ⟨"file:///U"⟩ 2 [.replaceAll ['U']]])).step (.tokens ⟨"file:///U"⟩)).answer =
          .nothing := by
  have h := run_isolated {} ⟨"file:///U"⟩
  refine ⟨⟨_, rfl, h.1 _ ⟨by decide, by decide⟩⟩, h.2.1 [.opened ⟨"file:///U"⟩ 1 ['\x7b']] 1 ['p']
    [.tokens ⟨"file:///U"⟩], (h.2.2 _ _ ?_).1⟩
  simp

end Session

end FoamDict.Server
