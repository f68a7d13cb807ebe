import FoamDict.Yaml.Node

/-!
# Documents

A text is well formed if it holds at most one document and no mapping in it has two keys that mean
the same.
-/

namespace FoamDict.Yaml

namespace Node

mutual

/-- Whether two nodes count as the same key. -/
def same : Node → Node → Bool
  | scalar s, scalar t => s.meaning.same t.meaning
  | sequence xs, sequence ys => sameItems xs ys
  | mapping es, mapping fs => sameEntries es fs
  | _, _ => false

def sameItems : List Node → List Node → Bool
  | [], [] => true
  | x :: xs, y :: ys => x.same y && sameItems xs ys
  | _, _ => false

def sameEntries : List (Node × Node) → List (Node × Node) → Bool
  | [], [] => true
  | (k, x) :: es, (l, y) :: fs => k.same l && x.same y && sameEntries es fs
  | _, _ => false

end

mutual

/-- Whether no mapping in the node repeats a key. -/
def hasDistinctKeys : Node → Bool
  | scalar _ => true
  | sequence items => itemsHaveDistinctKeys items
  | mapping entries => entriesHaveDistinctKeys entries

def itemsHaveDistinctKeys : List Node → Bool
  | [] => true
  | x :: xs => x.hasDistinctKeys && itemsHaveDistinctKeys xs

def entriesHaveDistinctKeys : List (Node × Node) → Bool
  | [] => true
  | (k, x) :: es =>
    k.hasDistinctKeys && x.hasDistinctKeys && !es.any (fun e => k.same e.1)
      && entriesHaveDistinctKeys es

end

mutual

/-- Whether some scalar of the node is a whole number past 64 bits. -/
def hasWideInteger : Node → Bool
  | scalar s =>
    match s.meaning with
    | .wide _ => true
    | _ => false
  | sequence items => itemsHaveWideInteger items
  | mapping entries => entriesHaveWideInteger entries

def itemsHaveWideInteger : List Node → Bool
  | [] => false
  | x :: xs => x.hasWideInteger || itemsHaveWideInteger xs

def entriesHaveWideInteger : List (Node × Node) → Bool
  | [] => false
  | (k, x) :: es => k.hasWideInteger || x.hasWideInteger || entriesHaveWideInteger es

end

end Node

def document? (text : String) : Option (Option Node) := do
  let root? ← Node.ofTokens? (← tokens? text.toList)
  if root?.all (·.hasDistinctKeys) then some root? else none

end FoamDict.Yaml
