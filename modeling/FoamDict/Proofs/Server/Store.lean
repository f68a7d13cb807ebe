import Mathlib.Data.List.Induction
import FoamDict.Proofs.Association
import FoamDict.Server.Session

/-!
# One document in a session

Each operation changes the document at one address at most, and what it makes of the document
depends on that document alone: seen from one address, a session is a fold over its operations. What
an operation publishes are the diagnostics of the documents at the addresses it changes, as they are
stored behind it.
-/

namespace FoamDict.Server

namespace Documents

theorem get?_cons (key uri : Uri) (d : Document) (ds : Documents) :
    get? ((uri, d) :: ds) key = if key = uri then some d else get? ds key :=
  Association.lookup_cons

theorem get?_close (ds : Documents) (uri key : Uri) :
    (ds.close uri).get? key = if key = uri then none else ds.get? key :=
  Association.lookup_filter_ne

theorem get?_put (ds : Documents) (uri key : Uri) (d : Document) :
    (ds.put uri d).get? key = if key = uri then some d else ds.get? key := by
  rw [put, get?_cons, get?_close]
  split_ifs <;> rfl

end Documents

namespace Operation

/-- What an operation makes of the document stored at an address. -/
def onDocument (uri : Uri) : Operation → Option Document → Option Document
  | .opened other version text, stored => if uri = other then some ⟨text, version⟩ else stored
  | .changed other version edits, stored =>
    if uri = other then stored.map (·.edit edits version) else stored
  | .closed other, stored => if uri = other then none else stored
  | _, stored => stored

/-- The addresses for which an operation publishes. -/
def announced (s : Session) : Operation → List Uri
  | .opened uri _ _ => [uri]
  | .changed uri _ _ => if (s.documents.get? uri).isSome then [uri] else []
  | .closed uri => [uri]
  | _ => []

/-- Whether an operation opens or closes the document at an address. -/
def opens? (uri : Uri) : Operation → Option Bool
  | .opened other _ _ => if uri = other then some true else none
  | .closed other => if uri = other then some false else none
  | _ => none

/-- The version that comes with opening or changing the document at an address. -/
def version? (uri : Uri) : Operation → Option Int
  | .opened other version _ => if uri = other then some version else none
  | .changed other version _ => if uri = other then some version else none
  | _ => none

end Operation

/-- What a client is told about an address where `stored` is kept. -/
def announcement (source : String) (uri : Uri) : Option Document → Publication
  | some d => ⟨uri, (Brace.faults d.text).map (Diagnostic.ofFault source), some d.version⟩
  | none => ⟨uri, [], none⟩

@[simp] theorem uri_announcement (source : String) (uri : Uri) (stored : Option Document) :
    (announcement source uri stored).uri = uri := by cases stored <;> rfl

namespace Session

/-- The session behind operations one after the other. -/
def after (s : Session) (ops : List Operation) : Session :=
  ops.foldl (fun s op => (s.step op).session) s

/-- All that is published for an address over a run, in order. -/
def publishedFor (s : Session) (uri : Uri) (ops : List Operation) : List Publication :=
  ((s.run ops).flatMap (·.published)).filter (·.uri = uri)

variable (s : Session) (op : Operation) (ops : List Operation) (uri : Uri)

@[simp] theorem after_nil : s.after [] = s := rfl

theorem after_append (ops' : List Operation) : s.after (ops ++ ops') = (s.after ops).after ops' :=
  List.foldl_append

@[simp] theorem after_concat : s.after (ops ++ [op]) = ((s.after ops).step op).session := by
  simp [after]

theorem run_concat : s.run (ops ++ [op]) = s.run ops ++ [(s.after ops).step op] := by
  induction ops generalizing s with
  | nil => rfl
  | cons first ops ih =>
      rw [List.cons_append, run, ih, run]
      rfl

theorem publishedFor_cons : s.publishedFor uri (op :: ops) =
    (s.step op).published.filter (·.uri = uri) ++ (s.step op).session.publishedFor uri ops := by
  rw [publishedFor, run, List.flatMap_cons, List.filter_append]
  rfl

theorem publishedFor_concat : s.publishedFor uri (ops ++ [op]) =
    s.publishedFor uri ops ++ ((s.after ops).step op).published.filter (·.uri = uri) := by
  simp [publishedFor, run_concat]

theorem session_step :
    (s.step op).session = { s with documents := (s.step op).session.documents } := by
  cases op with
  | changed uri version edits =>
      rw [step, change]
      split <;> rfl
  | _ => rfl

theorem catalog_step : (s.step op).session.catalog = s.catalog := by rw [session_step]

theorem options_step : (s.step op).session.options = s.options := by rw [session_step]

theorem options_after : (s.after ops).options = s.options := by
  induction ops using List.reverseRecOn with
  | nil => rfl
  | append_singleton ops op ih => rw [after_concat, options_step, ih]

/-- An operation reads and writes no document but the one at its own address. -/
theorem get?_step :
    (s.step op).session.documents.get? uri = op.onDocument uri (s.documents.get? uri) := by
  cases op with
  | opened other version text => exact Documents.get?_put _ _ _ _
  | changed other version edits =>
      rw [step, change, Operation.onDocument]
      by_cases h : uri = other
      · subst h
        cases hd : s.documents.get? uri with
        | none => simp [hd]
        | some d => simp [store, Documents.get?_put]
      · -- Whether `other` is stored decides what is written, but not at `uri`.
        cases hd : s.documents.get? other with
        | none => simp [h]
        | some d => simp [store, Documents.get?_put, h]
  | closed other => exact Documents.get?_close _ _ _
  | _ => rfl

theorem get?_after : (s.after ops).documents.get? uri =
    ops.foldl (fun stored op => op.onDocument uri stored) (s.documents.get? uri) := by
  induction ops using List.reverseRecOn with
  | nil => rfl
  | append_singleton ops op ih =>
      rw [after_concat, get?_step, ih, List.foldl_append]
      rfl

theorem get?_step_of_not_mem (h : uri ∉ op.announced s) :
    (s.step op).session.documents.get? uri = s.documents.get? uri := by
  rw [get?_step]
  cases op with
  | opened other version text => simp_all [Operation.announced, Operation.onDocument]
  | changed other version edits =>
      rw [Operation.onDocument]
      by_cases huri : uri = other
      · subst huri
        have hnone : s.documents.get? uri = none := by simpa [Operation.announced] using h
        simp [hnone]
      · rw [if_neg huri]
  | closed other => simp_all [Operation.announced, Operation.onDocument]
  | _ => rfl

/-- What is published is what is stored from then on at the addresses that the operation changes. -/
theorem published_step : (s.step op).published = (op.announced s).map fun uri =>
    announcement s.options.source uri ((s.step op).session.documents.get? uri) := by
  simp only [get?_step]
  cases op with
  | opened other version text => simp [Operation.announced, Operation.onDocument]; rfl
  | changed other version edits =>
      rw [step, change]
      cases hd : s.documents.get? other with
      | none => simp [Operation.announced, hd]
      | some d => simp [Operation.announced, Operation.onDocument, hd]; rfl
  | closed other => simp [Operation.announced, Operation.onDocument]; rfl
  | _ => rfl

end Session

end FoamDict.Server
