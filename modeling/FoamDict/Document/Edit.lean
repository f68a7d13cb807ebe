import FoamDict.Document.Position

/-!
# Edits

An edit replaces the whole text or the stretch between two positions, given in either order.
Edits that come together are made one after the other, each on the text that the one before it
left.
-/

namespace FoamDict.Document

inductive Edit where
  | replaceAll (text : List Char)
  | replace (first last : Position) (text : List Char)
  deriving DecidableEq

/-- Put `new` in the place of the characters from offset `a` to offset `b`. -/
def splice (text : List Char) (a b : Nat) (new : List Char) : List Char :=
  text.take a ++ new ++ text.drop b

def Edit.apply (text : List Char) : Edit → List Char
  | replaceAll new => new
  | replace first last new =>
    let a := first.offset text
    let b := last.offset text
    splice text (min a b) (max a b) new

end Document

structure Document where
  text : List Char
  version : Int
  deriving DecidableEq

def Document.edit (d : Document) (edits : List Document.Edit) (version : Int) : Document :=
  ⟨edits.foldl Document.Edit.apply d.text, version⟩

end FoamDict
