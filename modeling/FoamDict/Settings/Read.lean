import FoamDict.Decimal.Float
import FoamDict.Settings.Merge
import FoamDict.Text.Quoted

/-!
# Reading settings

The settings of the program are read from a table with a section for each group. A section may also
be an array with its fields in order. Truth values and numbers are taken where a text is wanted;
keys that no field has are ignored.
-/

namespace FoamDict

structure Settings where
  filter : String
  source : String
  detail : String
  triggers : List String
  deriving DecidableEq

namespace Settings

inductive ReadFault where
  /-- A text is wanted; `key` leads to the value. -/
  | noText (found : Value) (key : String)
  | wrongType (found : Value) (expected : String)
  | tooShort (length : Nat) (expected : String)
  | missingField (name : String)

def Value.describe : Value → String
  | .array _ _ => "sequence"
  | .table _ _ => "map"
  | .scalar _ s =>
    match s with
    | .nothing => "unit value"
    | .bool b => "boolean `" ++ toString b ++ "`"
    | .integer n => "integer `" ++ toString n ++ "`"
    | .float x => "floating point `" ++ Decimal.withPoint x ++ "`"
    | .text t => "string " ++ Text.quoted t

namespace ReadFault

def invalidType (found : Value) (expected : String) : String :=
  "invalid type: " ++ found.describe ++ ", expected " ++ expected

def message : ReadFault → String
  | noText found key =>
    invalidType found "a string" ++ " for key `" ++ key ++ "`"
      ++ (found.origin.map (" in " ++ ·)).getD ""
  | wrongType found expected => invalidType found expected
  | tooShort length expected => "invalid length " ++ toString length ++ ", expected " ++ expected
  | missingField name => "missing field `" ++ name ++ "`"

end ReadFault

abbrev Read (α : Type) := Except ReadFault α

def Value.text? : Value → Option String
  | .scalar _ s =>
    match s with
    | .nothing => none
    | .bool b => some (toString b)
    | .integer n => some (toString n)
    | .float x => some (Decimal.plain x)
    | .text t => some t
  | _ => none

def readText (key : String) (v : Value) : Read String :=
  match v.text? with
  | some t => .ok t
  | none => .error (.noText v key)

def itemKey (key : String) (index : Nat) : String := key ++ "[" ++ toString index ++ "]"

def readTexts (key : String) : Value → Read (List String)
  | .array _ items => items.zipIdx.mapM fun (v, index) => readText (itemKey key index) v
  | v => .error (.wrongType v "a sequence")

/-- Where the fields of a section are found; `key` leads to the section. -/
inductive Fields where
  | named (key : String) (entries : List (String × Value))
  | ordered (key : String) (structName : String) (count : Nat) (items : List Value)

def structText (structName : String) (count : Nat) : String :=
  "struct " ++ structName ++ " with " ++ toString count
    ++ (if count = 1 then " element" else " elements")

def Fields.of (key structName : String) (count : Nat) : Value → Read Fields
  | .table _ entries => .ok (.named key entries)
  | .array _ items => .ok (.ordered key structName count items)
  | v => .error (.wrongType v ("struct " ++ structName))

/-- The field with that name and place; of named fields it may be missing. -/
def Fields.read? {α : Type} (fields : Fields) (name : String) (place : Nat)
    (read : String → Value → Read α) : Read (Option α) :=
  match fields with
  | .named key entries =>
    match entries.lookup name with
    | some v => some <$> read (key ++ "." ++ name) v
    | none => .ok none
  | .ordered key structName count items =>
    match items[place]? with
    | some v => some <$> read (itemKey key place) v
    | none => .error (.tooShort place (structText structName count))

def required {α : Type} (name : String) : Option α → Read α
  | some a => .ok a
  | none => .error (.missingField name)

def readFilter (key : String) (v : Value) : Read String := do
  let fields ← Fields.of key "LoggingConfig" 1 v
  required "filter" (← fields.read? "filter" 0 readText)

def readSource (key : String) (v : Value) : Read String := do
  let fields ← Fields.of key "DiagnosticsConfig" 1 v
  required "source" (← fields.read? "source" 0 readText)

/-- Faults of fields that are there come before missing ones. -/
def readCompletion (key : String) (v : Value) : Read (String × List String) := do
  let fields ← Fields.of key "CompletionConfig" 2 v
  let detail? ← fields.read? "detail" 0 readText
  let triggers? ← fields.read? "trigger_characters" 1 readTexts
  return (← required "detail" detail?, ← required "trigger_characters" triggers?)

def readSection {α : Type} (root : Value) (name : String) (read : String → Value → Read α) :
    Read (Option α) :=
  match root.get? name with
  | some v => some <$> read name v
  | none => .ok none

def read (root : Value) : Read Settings := do
  let filter? ← readSection root "logging" readFilter
  let source? ← readSection root "diagnostics" readSource
  let completion? ← readSection root "completion" readCompletion
  let filter ← required "logging" filter?
  let source ← required "diagnostics" source?
  let (detail, triggers) ← required "completion" completion?
  return ⟨filter, source, detail, triggers⟩

end Settings

end FoamDict
