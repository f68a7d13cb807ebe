import FoamDict.Decimal.Float
import FoamDict.Json.Value

/-!
# Printing JSON

Values are printed on one line without blanks. Quotes, backslashes and control characters are
escaped and every other character stands for itself.
-/

namespace FoamDict.Json

def escape (c : Char) : List Char :=
  match c with
  | '"' => ['\\', '"']
  | '\\' => ['\\', '\\']
  | '\n' => ['\\', 'n']
  | '\r' => ['\\', 'r']
  | '\t' => ['\\', 't']
  | c =>
    if c.val < 0x20 then
      ['\\', 'u', '0', '0', Nat.digitChar (c.toNat / 16), Nat.digitChar (c.toNat % 16)]
    else [c]

def quote (s : String) : String := String.ofList ('"' :: (s.toList.flatMap escape ++ ['"']))

/-- No number stands for an infinite float or for one that is none. -/
def printFloat (x : Float) : String :=
  if x.isFinite then Decimal.withPoint x else "null"

mutual

def print : Json → String
  | null => "null"
  | bool b => if b then "true" else "false"
  | integer n => toString n
  | float x => printFloat x
  | string s => quote s
  | array items => "[" ++ printItems items ++ "]"
  | object members => "\x7b" ++ printMembers members ++ "\x7d"

def printItems : List Json → String
  | [] => ""
  | [item] => item.print
  | item :: rest => item.print ++ "," ++ printItems rest

def printMembers : List (String × Json) → String
  | [] => ""
  | [(name, value)] => quote name ++ ":" ++ value.print
  | (name, value) :: rest => quote name ++ ":" ++ value.print ++ "," ++ printMembers rest

end

end FoamDict.Json
