import FoamDict.Keyword.Catalog
import FoamDict.Text.Quoted
import FoamDict.Yaml.Document

/-!
# Catalog files

A catalog file is a YAML mapping with one list of identifiers for each category and a list of
documentation items. Any of them may be left out, and where a text is wanted every plain scalar is
taken as it is written. The first departure from that shape, in the order of the file, is reported
with the path to it; an item that lacks a text is at fault at its end.
-/

namespace FoamDict.Keyword

open FoamDict.Yaml (Node Scalar Meaning)

inductive ShapeProblem where
  | wrongType (found : Node) (expected : String)
  | unknownField (name : String) (expected : String)
  | missingField (name : String)

structure ShapeFault where
  /-- The path to the place; empty at the top. -/
  path : String
  problem : ShapeProblem

inductive FileFault where
  | malformed
  | shape (fault : ShapeFault)
  | catalog (fault : CatalogFault)

def describe : Node → String
  | .sequence _ => "sequence"
  | .mapping _ => "map"
  | .scalar s =>
    match s.meaning with
    | .nothing => "unit value"
    | .bool b => "boolean `" ++ (if b then "true" else "false") ++ "`"
    | .integer n => "integer `" ++ toString n ++ "`"
    | .wide n => "integer `" ++ toString n ++ "` as u128"
    | .float x => "floating point `" ++ Decimal.withPoint x ++ "`"
    | .text t => "string " ++ Text.quoted t

def ShapeProblem.message : ShapeProblem → String
  | wrongType found expected => "invalid type: " ++ describe found ++ ", expected " ++ expected
  | unknownField name expected => "unknown field `" ++ name ++ "`, expected " ++ expected
  | missingField name => "missing field `" ++ name ++ "`"

def ShapeFault.message (f : ShapeFault) : String :=
  "failed to parse keyword catalog: "
    ++ (if f.path.isEmpty then "" else f.path ++ ": ") ++ f.problem.message

namespace Shape

abbrev Read (α : Type) := Except ShapeFault α

def wrongType {α : Type} (path : String) (found : Node) (expected : String) : Read α :=
  .error ⟨path, .wrongType found expected⟩

def isMissing : Node → Bool
  | .scalar s => s = Scalar.missing
  | _ => false

def text (path : String) : Node → Read String
  | .scalar s => .ok s.text
  | n => wrongType path n "a string"

def itemPath (path : String) (index : Nat) : String := path ++ "[" ++ toString index ++ "]"

/-- Read each item; a list without a value is empty. -/
def list {α : Type} (item : String → Node → Read α) (path : String) : Node → Read (List α)
  | .sequence items => items.zipIdx.mapM fun (n, index) => item (itemPath path index) n
  | n => if isMissing n then .ok [] else wrongType path n "a sequence"

/-- The entries of a mapping with a fixed set of fields; a mapping without a value is empty. -/
def fields (name path : String) : Node → Read (List (Node × Node))
  | .mapping entries => .ok entries
  | n => if isMissing n then .ok [] else wrongType path n ("struct " ++ name)

def fieldName (path : String) : Node → Read String
  | .scalar s => .ok s.text
  | n => wrongType path n "field identifier"

structure Item where
  identifier : Option String := none
  text : Option String := none

def itemField (path : String) (item : Item) (entry : Node × Node) : Read Item := do
  match ← fieldName path entry.1 with
  | "identifier" => return { item with identifier := ← text (path ++ ".identifier") entry.2 }
  | "text" => return { item with text := ← text (path ++ ".text") entry.2 }
  | name => .error ⟨path, .unknownField name "`identifier` or `text`"⟩

def required (path name : String) : Option String → Read String
  | some text => .ok text
  | none => .error ⟨path, .missingField name⟩

def documentation (path : String) (n : Node) : Read Documentation := do
  let item ← (← fields "DocumentationData" path n).foldlM (itemField path) {}
  return ⟨← required path "identifier" item.identifier, ← required path "text" item.text⟩

def sectionField (s : Sections) (entry : Node × Node) : Read Sections := do
  match ← fieldName "" entry.1 with
  | "dictionary" => return { s with dictionary := ← list text "dictionary" entry.2 }
  | "list" => return { s with list := ← list text "list" entry.2 }
  | "lvalue" => return { s with lvalue := ← list text "lvalue" entry.2 }
  | "rvalue" => return { s with rvalue := ← list text "rvalue" entry.2 }
  | "documentation" =>
    return { s with documentation := ← list documentation "documentation" entry.2 }
  | name =>
    .error ⟨"", .unknownField name
      "one of `dictionary`, `list`, `lvalue`, `rvalue`, `documentation`"⟩

def sections (n : Node) : Read Sections := do
  (← fields "CatalogData" "" n).foldlM sectionField {}

end Shape

/-- The sections of a catalog file. A file without a document has none. A file that has a shape
fault and a whole number past 64 bits counts as malformed. -/
def Sections.ofFile (text : String) : Except FileFault Sections :=
  match Yaml.document? text with
  | none => .error .malformed
  | some none => .ok {}
  | some (some root) =>
    match Shape.sections root with
    | .ok s => .ok s
    | .error fault => .error (if root.hasWideInteger then .malformed else .shape fault)

def Catalog.ofFile (text : String) : Except FileFault Catalog := do
  let s ← Sections.ofFile text
  (Catalog.ofSections s).mapError .catalog

end FoamDict.Keyword
