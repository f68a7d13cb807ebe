/-!
# Categories

A catalog word takes the category of the section that lists it. Comments, numbers and strings are
found by their form. The legend fixes how an editor numbers the categories.
-/

namespace FoamDict.Highlight

inductive Category where
  | dictionary
  | list
  | lvalue
  | comment
  | number
  | string
  | rvalue
  deriving DecidableEq

namespace Category

def legend : List Category := [dictionary, list, lvalue, comment, number, string, rvalue]

def code (c : Category) : Nat := legend.idxOf c

def ofCode? (index : Nat) : Option Category := legend[index]?

@[simp] theorem ofCode?_code (c : Category) :
    ofCode? c.code = some c := by cases c <;> decide

def tokenType : Category → String
  | dictionary => "namespace"
  | list => "keyword"
  | lvalue => "type"
  | comment => "comment"
  | number => "number"
  | string => "string"
  | rvalue => "parameter"

def ofTokenType? (name : String) : Option Category := legend.find? (·.tokenType = name)

end Category

end FoamDict.Highlight
