/-!
# JSON values

Whole numbers in the range of 64-bit integers, signed or unsigned, are kept exactly; every other
number is a float. Members of an object keep their order.
-/

namespace FoamDict

inductive Json where
  | null
  | bool (value : Bool)
  | integer (value : Int)
  | float (value : Float)
  | string (value : String)
  | array (items : List Json)
  | object (members : List (String × Json))
  deriving Inhabited

namespace Json

def natural (n : Nat) : Json := integer n

def strings (texts : List String) : Json := array (texts.map string)

/-- The last member of that name. -/
def get? (name : String) : Json → Option Json
  | object members => (members.reverse.find? (·.1 = name)).map (·.2)
  | _ => none

def int? : Json → Option Int
  | integer n => some n
  | _ => none

def nat? : Json → Option Nat
  | integer n => if 0 ≤ n then some n.toNat else none
  | _ => none

def string? : Json → Option String
  | string s => some s
  | _ => none

def array? : Json → Option (List Json)
  | array items => some items
  | _ => none

def object? : Json → Option (List (String × Json))
  | object members => some members
  | _ => none

/-- An object without the members that have no value. -/
def ofMembers (members : List (String × Option Json)) : Json :=
  object (members.filterMap fun (name, value?) => value?.map (name, ·))

end Json

end FoamDict
