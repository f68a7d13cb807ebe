import FoamDict.Server.Decoding
import FoamDict.Server.Message

/-!
# The dialogue with a client

A dialogue starts with a handshake and ends with a shutdown and an exit. Before the handshake and
after the shutdown requests are refused and notifications ignored. A body that is no message ends
the dialogue.
-/

namespace FoamDict.Server

inductive Phase where
  | waiting
  | running
  | stopped
  | ended
  deriving DecidableEq

structure Dialogue where
  session : Session
  phase : Phase := .waiting

inductive Method where
  | handshake
  | shutdown
  | exit
  | request (decode : Json → Option Operation)
  | notification (decode : Json → Option Operation)
  /-- A request of the language server protocol that this server does not serve. -/
  | unsupported

namespace Method

def unsupportedRequests : List String :=
  ["textDocument/declaration", "textDocument/definition", "textDocument/typeDefinition",
    "textDocument/implementation", "textDocument/references", "textDocument/prepareCallHierarchy",
    "callHierarchy/incomingCalls", "callHierarchy/outgoingCalls",
    "textDocument/prepareTypeHierarchy", "typeHierarchy/supertypes", "typeHierarchy/subtypes",
    "textDocument/documentHighlight", "textDocument/documentLink", "documentLink/resolve",
    "textDocument/codeLens", "codeLens/resolve", "textDocument/foldingRange",
    "textDocument/selectionRange", "textDocument/documentSymbol",
    "textDocument/semanticTokens/full/delta", "textDocument/semanticTokens/range",
    "textDocument/inlineValue", "textDocument/inlayHint", "inlayHint/resolve",
    "textDocument/moniker", "completionItem/resolve", "textDocument/diagnostic",
    "workspace/diagnostic", "textDocument/signatureHelp", "textDocument/codeAction",
    "codeAction/resolve", "textDocument/documentColor", "textDocument/colorPresentation",
    "textDocument/formatting", "textDocument/rangeFormatting", "textDocument/onTypeFormatting",
    "textDocument/rename", "textDocument/prepareRename", "textDocument/linkedEditingRange",
    "textDocument/willSaveWaitUntil", "workspace/symbol", "workspaceSymbol/resolve",
    "workspace/willCreateFiles", "workspace/willRenameFiles", "workspace/willDeleteFiles",
    "workspace/executeCommand"]

def ignoredNotifications : List String :=
  ["textDocument/willSave", "textDocument/didSave", "workspace/didChangeWorkspaceFolders",
    "workspace/didChangeConfiguration", "workspace/didChangeWatchedFiles",
    "workspace/didCreateFiles", "workspace/didRenameFiles", "workspace/didDeleteFiles",
    "$/cancelRequest"]

def ofName? : String → Option Method
  | "initialize" => some handshake
  | "initialized" => some (notification Decode.ready?)
  | "shutdown" => some shutdown
  | "exit" => some exit
  | "textDocument/didOpen" => some (notification Decode.opened?)
  | "textDocument/didChange" => some (notification Decode.changed?)
  | "textDocument/didClose" => some (notification Decode.closed?)
  | "textDocument/semanticTokens/full" => some (request Decode.tokens?)
  | "textDocument/hover" => some (request Decode.hover?)
  | "textDocument/completion" => some (request Decode.completion?)
  | name =>
    if unsupportedRequests.contains name then some unsupported
    else if ignoredNotifications.contains name then some (notification fun _ => none)
    else none

end Method

namespace Dialogue

/-- A reply to a request; a notification gets none. -/
def refuse (d : Dialogue) (id : Option Id) (e : RpcError) : Dialogue × List Outgoing :=
  (d, (id.map fun id => .error id e).toList)

def phaseError : Phase → RpcError
  | .waiting => .notInitialized
  | _ => .invalidRequest

def decode (read : Json → Option Operation) : Option Json → Except RpcError Operation
  | none => .error .missingParams
  | some params =>
    match read params with
    | some op => .ok op
    | none => .error .invalidParams

def perform (d : Dialogue) (id : Option Id) (op : Operation) : Dialogue × List Outgoing :=
  let outcome := d.session.step op
  ({ d with session := outcome.session },
    outcome.published.map .publish
      ++ (id.map fun id => .result id (Encode.answer outcome.answer)).toList)

def handshake (d : Dialogue) (r : Request) : Dialogue × List Outgoing :=
  if d.phase = .waiting then
    match r.id, decode Decode.handshake? r.params with
    | some _, .ok op => { d with phase := .running }.perform r.id op
    | _, .ok _ => (d, [])
    | id, .error e => d.refuse id e
  else d.refuse r.id .invalidRequest

def shutdown (d : Dialogue) (r : Request) : Dialogue × List Outgoing :=
  if d.phase = .running then
    let stopped := { d with phase := .stopped }
    match r.params with
    | none => stopped.perform r.id .shutdown
    | some _ => stopped.refuse r.id .invalidParams
  else d.refuse r.id (phaseError d.phase)

/-- An identifier tells requests from notifications; the other kind of call is ignored. -/
def call (d : Dialogue) (r : Request) : Method → Dialogue × List Outgoing
  | .request read =>
    match r.id, decode read r.params with
    | none, _ => (d, [])
    | id, .ok op => d.perform id op
    | id, .error e => d.refuse id e
  | .notification read =>
    match r.id, decode read r.params with
    | none, .ok op => d.perform none op
    | _, _ => (d, [])
  | _ => d.refuse r.id .methodNotFound

def request (d : Dialogue) (r : Request) : Dialogue × List Outgoing :=
  match Method.ofName? r.method with
  | none => d.refuse r.id (.unknownMethod r.method)
  | some .exit => ({ d with phase := .ended }, [])
  | some .handshake => d.handshake r
  | some .shutdown => d.shutdown r
  | some m => if d.phase = .running then d.call r m else d.refuse r.id (phaseError d.phase)

/-- An empty body is passed over. -/
def receive (d : Dialogue) (body : String) : Dialogue × List Outgoing :=
  if d.phase = .ended || body.isEmpty then (d, [])
  else match Message.ofBody body with
    | .error fault => ({ d with phase := .ended }, [.error .null (.ofFault fault)])
    | .ok .reply => (d, [])
    | .ok (.request r) => d.request r

def receiveAll (d : Dialogue) : List String → List Outgoing
  | [] => []
  | body :: rest => (d.receive body).2 ++ (d.receive body).1.receiveAll rest

end Dialogue

end FoamDict.Server
