import FoamDict.Decimal.Digits
import FoamDict.Text.Reader

/-!
# Paths

A path names a place in nested settings: a key, then keys behind dots and indices in brackets. Keys
are made of ASCII letters, digits, underscores, hyphens and spaces. An index may be negative.
-/

namespace FoamDict.Settings

inductive Step where
  | key (name : String)
  | index (i : Int)
  deriving DecidableEq

structure Path where
  head : String
  steps : List Step
  deriving DecidableEq

inductive PathFault where
  | noKey
  /-- No number follows a bracket. -/
  | noIndex
  | indexTooLarge
  /-- What follows is neither a dot with a key nor an index in brackets. -/
  | unexpected
  deriving DecidableEq

namespace PathFault

def message : PathFault → String
  | noKey => "IsA"
  | noIndex => "Digit"
  | indexTooLarge => "Map on Result"
  | unexpected => "Char"

end PathFault

namespace Path

def isKeyChar (c : Char) : Bool := c.isAlphanum || c = '_' || c = '-' || c = ' '

def isSpace (c : Char) : Bool := c = ' ' || c = '\t'

def takeKey? (cs : List Char) : Option (String × List Char) :=
  match cs.takeWhile isKeyChar with
  | [] => none
  | key => some (String.ofList key, cs.dropWhile isKeyChar)

/-- The index between a bracket, taken already, and the next. -/
def takeIndex (cs : List Char) : Except PathFault (Int × List Char) := do
  let cs := cs.dropWhile isSpace
  let negative := cs.head? = some '-'
  let cs := if negative then cs.drop 1 else cs
  let n ← match Decimal.ofDigits? 10 (cs.takeWhile Char.isDigit) with
    | some n => pure n
    | none => throw .noIndex
  unless n < Nat.pow 2 63 || (negative && n = Nat.pow 2 63) do throw .indexTooLarge
  match (cs.dropWhile Char.isDigit).dropWhile isSpace with
  | ']' :: rest => return (if negative then -n else n, rest)
  | _ => throw .unexpected

/-- One step, with the dot or brackets that mark it. -/
def takeStep : List Char → Except PathFault (Step × List Char)
  | '.' :: rest =>
    match takeKey? rest with
    | some (key, rest) => return (.key key, rest)
    | none => throw .unexpected
  | '[' :: rest => do
    let (i, rest) ← takeIndex rest
    return (.index i, rest)
  | _ => throw .unexpected

def stepsFrom (cs : List Char) : Except PathFault (List Step) :=
  if cs.isEmpty then .ok []
  else
    match takeStep cs with
    | .error fault => .error fault
    | .ok (step, rest) =>
      if rest.length < cs.length then (stepsFrom rest).map (step :: ·) else .error .unexpected
termination_by cs.length

def parse (text : String) : Except PathFault Path :=
  match takeKey? text.toList with
  | none => .error .noKey
  | some (head, rest) => (stepsFrom rest).map (⟨head, ·⟩)

end Path

end FoamDict.Settings
