/-!
# Setting values

A value is a scalar, an array or a table. It may know the file it was read from.
-/

namespace FoamDict.Settings

inductive Scalar where
  | nothing
  | bool (value : Bool)
  | integer (value : Int)
  | float (value : Float)
  | text (value : String)

inductive Value where
  | scalar (origin : Option String) (s : Scalar)
  | array (origin : Option String) (items : List Value)
  | table (origin : Option String) (entries : List (String × Value))
  deriving Inhabited

namespace Value

def origin : Value → Option String
  | scalar origin _ => origin
  | array origin _ => origin
  | table origin _ => origin

def nothing : Value := scalar none .nothing

def text (s : String) : Value := scalar none (.text s)

def emptyTable : Value := table none []

def entries : Value → List (String × Value)
  | table _ entries => entries
  | _ => []

def items : Value → List Value
  | array _ items => items
  | _ => []

def get? (v : Value) (key : String) : Option Value := v.entries.lookup key

/-- Change the entry for a key that is there, or add one at the end. -/
def putEntry (key : String) (v : Value) : List (String × Value) → List (String × Value)
  | [] => [(key, v)]
  | (k, old) :: rest => if k = key then (key, v) :: rest else (k, old) :: putEntry key v rest

/-- Set the entry of a table; whatever is no table turns into an empty one first. -/
def put (v : Value) (key : String) (entry : Value) : Value :=
  match v with
  | table origin entries => table origin (putEntry key entry entries)
  | _ => table none [(key, entry)]

end Value

end FoamDict.Settings
