import FoamDict.Json.Value
import FoamDict.Server.Session

/-!
# Operations from JSON

The parameters that come with each method. A method whose parameters do not have the right form
stands for no operation.
-/

namespace FoamDict.Server.Decode

open FoamDict.Document (Edit Position)

/-- A natural number of 32 bits. -/
def natural? (j : Json) : Option Nat := j.nat?.filter (· < Nat.pow 2 32)

/-- A version: a whole number of 32 bits with a sign. -/
def version? (j : Json) : Option Int := j.int?.filter fun n => -Nat.pow 2 31 ≤ n && n < Nat.pow 2 31

def position? (j : Json) : Option Position := do
  return ⟨← natural? (← j.get? "line"), ← natural? (← j.get? "character")⟩

def uri? (j : Json) : Option Uri := do Uri.parse? (← (← j.get? "uri").string?)

def document? (j : Json) : Option Json := j.get? "textDocument"

def text? (j : Json) : Option (List Char) := do return (← (← j.get? "text").string?).toList

def edit? (j : Json) : Option Edit := do
  let text ← text? j
  match j.get? "range" with
  | none | some .null => return .replaceAll text
  | some range =>
    return .replace (← position? (← range.get? "start")) (← position? (← range.get? "end")) text

def handshake? (params : Json) : Option Operation := do
  let _ ← (← params.get? "capabilities").object?
  return .handshake

def ready? (params : Json) : Option Operation := do
  let _ ← params.object?
  return .ready

def opened? (params : Json) : Option Operation := do
  let d ← document? params
  let _ ← (← d.get? "languageId").string?
  return .opened (← uri? d) (← version? (← d.get? "version")) (← text? d)

def changed? (params : Json) : Option Operation := do
  let d ← document? params
  let edits ← (← (← params.get? "contentChanges").array?).mapM edit?
  return .changed (← uri? d) (← version? (← d.get? "version")) edits

def closed? (params : Json) : Option Operation := do return .closed (← uri? (← document? params))

def tokens? (params : Json) : Option Operation := do return .tokens (← uri? (← document? params))

def place? (params : Json) : Option (Uri × Position) := do
  return (← uri? (← document? params), ← position? (← params.get? "position"))

def hover? (params : Json) : Option Operation := do
  let (uri, p) ← place? params
  return .hover uri p

def completion? (params : Json) : Option Operation := do
  let _ ← place? params
  return .completion

end FoamDict.Server.Decode
