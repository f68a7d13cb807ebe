import FoamDict.Settings.Path
import FoamDict.Settings.Value

/-!
# Merging

Settings are merged one path at a time. Keys do not tell upper from lower case. A table merges into
what is there key by key; any other value takes the place of what is there. Whatever stands on the
way of a path and is no table, or no array where an index follows, turns into an empty one. An index
past the end fills the array up, and a negative one counts from the end.

The entries of a table are merged in the order in which they are listed here. No order of them is
promised, and it makes a difference only if two keys are the same in lower case.
-/

namespace FoamDict.Settings

namespace Value

mutual

/-- Merge `v` into the entry for `key`. An empty table changes nothing that is there. -/
def merge (parent : Value) (key : String) (v : Value) : Value :=
  match v with
  | table _ entries =>
    let target := (parent.get? key.toLower).getD emptyTable
    parent.put key.toLower (mergeAll target entries)
  | v => parent.put key.toLower v

/-- Merge the entries of a table one after the other. -/
def mergeAll (target : Value) : List (String × Value) → Value
  | [] => target
  | (key, v) :: rest => mergeAll (target.merge key v) rest

end

/-- The place of an index, if it is not in front of the start. -/
def place? (length : Nat) (i : Int) : Option Nat :=
  if 0 ≤ i then some i.toNat else if i.natAbs ≤ length then some (length - i.natAbs) else none

def fill (items : List Value) (place : Nat) : List Value :=
  items ++ List.replicate (place + 1 - items.length) nothing

/-- Set the item at an index; fails for a place in front of the start. -/
def setItem (v : Value) (i : Int) (change : Value → Option Value) : Option Value := do
  let place ← place? v.items.length i
  let items := fill v.items place
  let item ← change (items.getD place nothing)
  let origin := match v with
    | array origin _ => origin
    | _ => none
  return array origin (items.set place item)

/-- Set `v` at the place that the steps lead to. -/
def setAt (v : Value) : (steps : List Step) → Value → Option Value
  | [], _ => some v
  | [.key name], parent => some (parent.merge name v)
  | .key name :: steps, parent => do
    let inner ← setAt v steps ((parent.get? name.toLower).getD nothing)
    return parent.put name.toLower inner
  | .index i :: steps, parent => parent.setItem i (setAt v steps)

/-- Set `v` at a path; fails if an index lies in front of the start of its array. -/
def set (root : Value) (path : Path) (v : Value) : Option Value :=
  setAt v (.key path.head :: path.steps) root

end Value

end FoamDict.Settings
