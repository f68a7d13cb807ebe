import FoamDict.Settings.Read
import FoamDict.Toml.Document

/-!
# Layers

Settings start from defaults. Files are layered over them in the order in which they are named, and
overrides by path over all files, wherever they stand between them. Files are read when the settings
are resolved. A path that is no file is tried again with `.toml` behind it; a file that is not found
is a fault unless it is optional.
-/

namespace FoamDict.Settings

abbrev Files := List (String × String)

structure FileLayer where
  path : String
  isRequired : Bool
  deriving DecidableEq

/-- What settings are put together from, above the defaults. -/
structure Layers where
  files : List FileLayer := []
  overrides : List (Path × Value) := []

inductive LoadFault where
  | fileNotFound (path : String)
  | malformedFile (path : String)
  /-- An index counts further from the end than its array is long. -/
  | indexBeforeStart
  | reading (fault : ReadFault)

def LoadFault.message : LoadFault → String
  | fileNotFound path => "configuration file \"" ++ path ++ "\" not found"
  | malformedFile path => "malformed TOML in " ++ path
  | indexBeforeStart => "index before the start of an array"
  | reading fault => fault.message

namespace Default

def filter : String := "info"

def source : String := "openfoam-lsp"

def detail : String := "OpenFOAM keyword"

def triggers : List String := [".", "\"", " "]

def root : Value :=
  .table none [
    ("logging", .table none [("filter", .text filter)]),
    ("diagnostics", .table none [("source", .text source)]),
    ("completion", .table none [
      ("detail", .text detail),
      ("trigger_characters", .array none (triggers.map Value.text))])]

end Default

namespace Value

mutual

/-- A value of a file; dates are texts. -/
def ofToml (origin : String) : Toml.Value → Value
  | .string s => scalar origin (.text s)
  | .integer n => scalar origin (.integer n)
  | .float x => scalar origin (.float x)
  | .bool b => scalar origin (.bool b)
  | .datetime d => scalar origin (.text d.render)
  | .array items => array origin (itemsOfToml origin items)
  | .table entries => table origin (entriesOfToml origin entries)

def itemsOfToml (origin : String) : List Toml.Value → List Value
  | [] => []
  | v :: rest => ofToml origin v :: itemsOfToml origin rest

def entriesOfToml (origin : String) : List (String × Toml.Value) → List (String × Value)
  | [] => []
  | (key, v) :: rest => (key, ofToml origin v) :: entriesOfToml origin rest

end

end Value

/-- The path that a key at the top of a file stands for. A key that is no path stands for itself. -/
def pathOfKey (key : String) : Path :=
  match Path.parse key with
  | .ok path => path
  | .error _ => ⟨key, []⟩

/-- Merge the entries of a file in the order in which they are listed. No order of them is promised;
it makes a difference where the paths of two entries meet. -/
def mergeFile (root : Value) (entries : List (String × Value)) : Option Value :=
  entries.foldlM (fun root entry => root.set (pathOfKey entry.1) entry.2) root

/-- The path without parts that stand for the place they are in. -/
def tidy (path : String) : String :=
  let parts := ((path.toList.splitOn '/').map String.ofList).filter fun p => p ≠ "" && p ≠ "."
  (if path.startsWith "/" then "/" else "") ++ "/".intercalate parts

/-- The names of the files that a path may stand for, the first one first. -/
def candidates (path : String) : List String :=
  if (tidy path).isEmpty then [] else [tidy path, tidy path ++ ".toml"]

/-- The file that a path names, with its name and text. -/
def findFile? (files : Files) (path : String) : Option (String × String) :=
  (candidates path).findSome? fun name => files.find? (·.1 = name)

namespace Layers

def addFile (ls : Layers) (path : String) (isRequired : Bool) : Layers :=
  { ls with files := ls.files ++ [⟨path, isRequired⟩] }

/-- A later override of a path takes the place of an earlier one. -/
def override (ls : Layers) (path : Path) (v : Value) : Layers :=
  { ls with overrides := ls.overrides.filter (·.1 ≠ path) ++ [(path, v)] }

def overrideAt (ls : Layers) (text : String) (v : Value) : Except PathFault Layers :=
  (Path.parse text).map (ls.override · v)

def filterPath : Path := ⟨"logging", [.key "filter"]⟩

def pinFilter (ls : Layers) : Option String → Layers
  | some directive => ls.override filterPath (.text directive)
  | none => ls

def candidates (ls : Layers) : List String := ls.files.flatMap fun f => Settings.candidates f.path

def applyFile (files : Files) (root : Value) (layer : FileLayer) : Except LoadFault Value :=
  match findFile? files layer.path with
  | none => if layer.isRequired then .error (.fileNotFound layer.path) else .ok root
  | some (name, text) =>
    match Toml.entries? text with
    | none => .error (.malformedFile layer.path)
    | some entries =>
      match mergeFile root (Value.entriesOfToml name entries) with
      | some root => .ok root
      | none => .error .indexBeforeStart

def applyOverride (root : Value) (o : Path × Value) : Except LoadFault Value :=
  match root.set o.1 o.2 with
  | some root => .ok root
  | none => .error .indexBeforeStart

def merged (ls : Layers) (files : Files) : Except LoadFault Value := do
  let root ← ls.files.foldlM (applyFile files) Default.root
  ls.overrides.foldlM applyOverride root

def resolve (ls : Layers) (files : Files) : Except LoadFault Settings := do
  (Settings.read (← ls.merged files)).mapError .reading

end Layers

end FoamDict.Settings
