import FoamDict.Json.Reader
import FoamDict.Server.Encoding

/-!
# Messages

Client and server exchange JSON-RPC messages. A message with a method asks for something: with an
identifier it is a request and wants a reply, without one it is a notification. A message with a
result or an error is a reply to a request of the server, which never makes one.
-/

namespace FoamDict.Server

inductive Id where
  | number (n : Int)
  | text (s : String)
  | null
  deriving DecidableEq

def Id.encode : Id → Json
  | number n => .integer n
  | text s => .string s
  | null => .null

def Id.ofJson? : Json → Option Id
  | .integer n => if n < Nat.pow 2 63 then some (.number n) else none
  | .string s => some (.text s)
  | .null => some .null
  | _ => none

structure Request where
  method : String
  params : Option Json
  id : Option Id

inductive Message where
  | request (r : Request)
  | reply

inductive BodyFault where
  | notJson
  | notMessage
  deriving DecidableEq

structure RpcError where
  code : Int
  message : String
  data : Option Json := none

namespace RpcError

def parseError : RpcError := { code := -32700, message := "Parse error" }

def invalidRequest : RpcError := { code := -32600, message := "Invalid request" }

def methodNotFound : RpcError := { code := -32601, message := "Method not found" }

def unknownMethod (method : String) : RpcError :=
  { methodNotFound with data := some (.string method) }

def invalidParams : RpcError := { code := -32602, message := "Invalid params" }

def missingParams : RpcError := { code := -32602, message := "Missing params field" }

def notInitialized : RpcError := { code := -32002, message := "Server not initialized" }

def ofFault : BodyFault → RpcError
  | .notJson => parseError
  | .notMessage => invalidRequest

def encode (e : RpcError) : Json :=
  .ofMembers [
    ("code", some (.integer e.code)), ("message", some (.string e.message)), ("data", e.data)]

end RpcError

inductive Outgoing where
  | result (id : Id) (value : Json)
  | error (id : Id) (e : RpcError)
  | publish (p : Publication)

namespace Outgoing

def envelope (members : List (String × Json)) : Json :=
  .object (("jsonrpc", .string "2.0") :: members)

def encode : Outgoing → Json
  | result id value => envelope [("id", id.encode), ("result", value)]
  | error id e => envelope [("id", id.encode), ("error", e.encode)]
  | publish p =>
    envelope [
      ("method", .string "textDocument/publishDiagnostics"), ("params", Encode.publication p)]

def isReply : Outgoing → Bool
  | publish _ => false
  | _ => true

end Outgoing

namespace Message

/-- Members with a meaning of their own must not be repeated. -/
def isUnambiguous (members : List (String × Json)) : Bool :=
  ["jsonrpc", "method", "params", "id"].all fun name => members.countP (·.1 = name) ≤ 1

def isErrorBody (j : Json) : Bool :=
  ((j.get? "code").bind Json.int?).isSome && ((j.get? "message").bind Json.string?).isSome

def isReply (j : Json) : Bool :=
  ((j.get? "id").bind Id.ofJson?).isSome
    && ((j.get? "result").isSome || (j.get? "error").any isErrorBody)

/-- Read a member that may be left out. -/
def optional? {α : Type} (read : Json → Option α) : Option Json → Option (Option α)
  | none => some none
  | some j => (read j).map some

def request? (j : Json) : Option Request := do
  let method ← optional? Json.string? (j.get? "method")
  let id ← optional? Id.ofJson? (j.get? "id")
  return ⟨method.getD "", j.get? "params", id⟩

def ofJson? (j : Json) : Option Message := do
  let members ← j.object?
  let version ← (← j.get? "jsonrpc").string?
  if version ≠ "2.0" || !isUnambiguous members then none
  else if isReply j then some .reply
  else (request? j).map .request

def ofBody (body : String) : Except BodyFault Message :=
  match Json.read? body with
  | none => .error .notJson
  | some j =>
    match ofJson? j with
    | none => .error .notMessage
    | some m => .ok m

end Message

end FoamDict.Server
