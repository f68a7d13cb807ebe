import FoamDict.Brace
import FoamDict.Document.Edit
import FoamDict.Highlight.Classify
import FoamDict.Highlight.Delta
import FoamDict.Keyword.Builtin
import FoamDict.Keyword.Lookup
import FoamDict.Server.Uri
import FoamDict.Settings.Layers

/-!
# Sessions

A session keeps the documents that an editor has open. Opening or changing a document publishes all
its diagnostics with its version; closing one publishes that there are none left. Requests for
tokens and hover are answered from the text that is kept, and with nothing for a document that is
not open.
-/

namespace FoamDict.Server

open FoamDict.Document (Edit Position)
open FoamDict.Highlight (DeltaToken)
open FoamDict.Keyword (Catalog Suggestion Hover)

structure Options where
  source : String := Settings.Default.source
  detail : String := Settings.Default.detail
  triggers : List String := Settings.Default.triggers
  deriving DecidableEq

def Options.ofSettings (s : Settings) : Options := ⟨s.source, s.detail, s.triggers⟩

abbrev Documents := List (Uri × Document)

namespace Documents

def get? (ds : Documents) (uri : Uri) : Option Document := ds.lookup uri

def close (ds : Documents) (uri : Uri) : Documents := ds.filter (·.1 ≠ uri)

def put (ds : Documents) (uri : Uri) (d : Document) : Documents := (uri, d) :: ds.close uri

end Documents

structure Diagnostic where
  extent : Text.Extent
  severity : Nat
  source : String
  message : String
  deriving DecidableEq

def Diagnostic.ofFault (source : String) (f : Brace.Fault) : Diagnostic :=
  ⟨f.extent, Brace.severity, source, f.kind.message⟩

/-- The diagnostics that a client is to show for a document from now on. -/
structure Publication where
  uri : Uri
  diagnostics : List Diagnostic
  version : Option Int
  deriving DecidableEq

inductive Operation where
  | handshake
  | ready
  | shutdown
  | opened (uri : Uri) (version : Int) (text : List Char)
  | changed (uri : Uri) (version : Int) (edits : List Edit)
  | closed (uri : Uri)
  | tokens (uri : Uri)
  | hover (uri : Uri) (p : Position)
  | completion
  deriving DecidableEq

inductive Answer where
  | nothing
  | abilities (triggers : List String)
  | tokens (stream : List DeltaToken)
  | hover (h : Hover)
  | suggestions (items : List Suggestion)
  deriving DecidableEq

structure Session where
  catalog : Catalog := Catalog.builtin
  options : Options := {}
  documents : Documents := []

structure Outcome where
  session : Session
  answer : Answer := .nothing
  published : List Publication := []

namespace Session

def publication (s : Session) (uri : Uri) (d : Document) : Publication :=
  ⟨uri, (Brace.faults d.text).map (Diagnostic.ofFault s.options.source), some d.version⟩

def store (s : Session) (uri : Uri) (d : Document) : Outcome :=
  { session := { s with documents := s.documents.put uri d }, published := [s.publication uri d] }

def change (s : Session) (uri : Uri) (version : Int) (edits : List Edit) : Outcome :=
  match s.documents.get? uri with
  | some d => s.store uri (d.edit edits version)
  | none => { session := s }

def close (s : Session) (uri : Uri) : Outcome :=
  { session := { s with documents := s.documents.close uri }, published := [⟨uri, [], none⟩] }

def tokensOf (s : Session) (uri : Uri) : Answer :=
  match s.documents.get? uri with
  | some d => .tokens (Highlight.Delta.encode (Highlight.classify s.catalog d.text))
  | none => .nothing

def hoverAt (s : Session) (uri : Uri) (p : Position) : Answer :=
  match (s.documents.get? uri).bind fun d => s.catalog.hover? d.text p.line p.column with
  | some h => .hover h
  | none => .nothing

def suggestions (s : Session) : List Suggestion :=
  s.catalog.suggestions.map fun c => { c with detail := s.options.detail }

def step (s : Session) : Operation → Outcome
  | .handshake => { session := s, answer := .abilities s.options.triggers }
  | .ready => { session := s }
  | .shutdown => { session := s }
  | .opened uri version text => s.store uri ⟨text, version⟩
  | .changed uri version edits => s.change uri version edits
  | .closed uri => s.close uri
  | .tokens uri => { session := s, answer := s.tokensOf uri }
  | .hover uri p => { session := s, answer := s.hoverAt uri p }
  | .completion => { session := s, answer := .suggestions s.suggestions }

/-- The outcomes of operations one after the other. -/
def run (s : Session) : List Operation → List Outcome
  | [] => []
  | op :: ops => s.step op :: run (s.step op).session ops

end Session

end FoamDict.Server
