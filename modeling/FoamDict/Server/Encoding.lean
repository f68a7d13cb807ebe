import FoamDict.Json.Value
import FoamDict.Server.Session

/-!
# Answers as JSON

The form in which editors take answers and diagnostics. Members without a value are left out.
-/

namespace FoamDict.Server

def serverName : String := "foam-lsp"

def serverVersion : String := "0.1.0"

/-- Documents change by edits, not as a whole. -/
def editSync : Nat := 2

namespace Encode

def position (line column : Nat) : Json :=
  .object [("line", .natural line), ("character", .natural column)]

def extent (e : Text.Extent) : Json :=
  .object [("start", position e.line e.start), ("end", position e.line e.stop)]

def markdown (text : String) : Json :=
  .object [("kind", .string "markdown"), ("value", .string text)]

def legend : Json :=
  .object [
    ("tokenTypes", .strings (Highlight.Category.legend.map (·.tokenType))),
    ("tokenModifiers", .array [])]

def abilities (triggers : List String) : Json :=
  .object [
    ("capabilities", .object [
      ("textDocumentSync", .object [("openClose", .bool true), ("change", .natural editSync)]),
      ("hoverProvider", .bool true),
      ("completionProvider", .object [("triggerCharacters", .strings triggers)]),
      ("semanticTokensProvider", .object [("legend", legend), ("full", .bool true)])]),
    ("serverInfo", .object [("name", .string serverName), ("version", .string serverVersion)])]

def tokens (stream : List Highlight.DeltaToken) : Json :=
  .object [("data", .array ((stream.flatMap (·.fields)).map Json.natural))]

def hover (h : Keyword.Hover) : Json :=
  .object [("contents", markdown h.contents), ("range", extent h.extent)]

def completion (c : Keyword.Suggestion) : Json :=
  .object [
    ("label", .string c.label),
    ("kind", .natural Keyword.suggestionKind),
    ("detail", .string c.detail),
    ("documentation", markdown c.documentation)]

def answer : Answer → Json
  | .nothing => .null
  | .abilities triggers => abilities triggers
  | .tokens stream => tokens stream
  | .hover h => hover h
  | .suggestions items => .array (items.map completion)

def diagnostic (d : Diagnostic) : Json :=
  .object [
    ("range", extent d.extent),
    ("severity", .natural d.severity),
    ("source", .string d.source),
    ("message", .string d.message)]

def publication (p : Publication) : Json :=
  .ofMembers [
    ("uri", some (.string p.uri.text)),
    ("diagnostics", some (.array (p.diagnostics.map diagnostic))),
    ("version", p.version.map .integer)]

end Encode

end FoamDict.Server
