import FoamDict.Toml.Value

/-!
# Tables

A table grows by assignments and headers. It may be defined once by a header, or by dotted keys, but
not by both, and a value never turns into a table or grows.
-/

namespace FoamDict.Toml

inductive TableKind where
  /-- By its own header. -/
  | defined
  /-- On the way of a longer header. -/
  | implied
  /-- On the way of a dotted key. -/
  | dotted
  deriving DecidableEq

inductive Item where
  | value (v : Value)
  | table (kind : TableKind) (entries : List (String × Item))
  /-- The tables of an array, each with its entries in a table item, the last one first. -/
  | tables (elements : List Item)

abbrev Entries := List (String × Item)

namespace Entries

def get? (es : Entries) (key : String) : Option Item := es.lookup key

/-- Change the entry for a key that is there, or add one at the end. -/
def put (key : String) (item : Item) : Entries → Entries
  | [] => [(key, item)]
  | (k, old) :: es => if k = key then (key, item) :: es else (k, old) :: put key item es

/-- Change the table for a key by `change`, given a kind for a table that is not there yet. An array
of tables stands for its last table. -/
def descend (es : Entries) (key : String) (fresh : TableKind)
    (change : TableKind → Entries → Option Entries) : Option Entries :=
  match es.get? key with
  | none => (change fresh []).map fun inner => es.put key (.table fresh inner)
  | some (.table kind inner) => (change kind inner).map fun inner => es.put key (.table kind inner)
  | some (.tables (.table kind inner :: others)) =>
    (change .implied inner).map fun inner => es.put key (.tables (.table kind inner :: others))
  | some _ => none

/-- Assign a value to a dotted key. The table that takes the value has to be the one the assignment
stands in, or one that came about by dotted keys; none on the way may have a header of its own. -/
def assign (v : Value) : (here : Bool) → (path : List String) → Entries → Option Entries
  | _, [], _ => none
  | here, [key], es => if here && (es.get? key).isNone then some (es ++ [(key, .value v)]) else none
  | _, key :: path, es =>
    es.descend key .dotted fun kind inner =>
      if kind = .defined then none else assign v (kind = .dotted) path inner

/-- Define a table by its header. -/
def define : (path : List String) → Entries → Option Entries
  | [], _ => none
  | [key], es =>
    match es.get? key with
    | none => some (es.put key (.table .defined []))
    | some (.table .implied inner) => some (es.put key (.table .defined inner))
    | some _ => none
  | key :: path, es => es.descend key .implied fun _ inner => define path inner

/-- Add a table to an array of tables. -/
def extend : (path : List String) → Entries → Option Entries
  | [], _ => none
  | [key], es =>
    match es.get? key with
    | none => some (es.put key (.tables [.table .defined []]))
    | some (.tables elements) => some (es.put key (.tables (.table .defined [] :: elements)))
    | some _ => none
  | key :: path, es => es.descend key .implied fun _ inner => extend path inner

/-- Change the table that a header names. -/
def within (change : Entries → Option Entries) : (path : List String) → Entries → Option Entries
  | [], es => change es
  | key :: path, es => es.descend key .implied fun _ inner => within change path inner

end Entries

mutual

def Item.toValue : Item → Value
  | .value v => v
  | .table _ entries => .table (entryValues entries)
  | .tables elements => .array (itemValues elements).reverse

def itemValues : List Item → List Value
  | [] => []
  | item :: rest => item.toValue :: itemValues rest

def entryValues : List (String × Item) → List (String × Value)
  | [] => []
  | (key, item) :: rest => (key, item.toValue) :: entryValues rest

end

end FoamDict.Toml
