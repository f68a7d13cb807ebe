import FoamDict.Highlight.Category

/-!
# Keyword catalogs

A catalog is put together from four lists of identifiers, one for each category, and from
documentation for some identifiers, listed or not. An identifier takes the category of the first
list that holds it. No identifier may be empty and none may be documented twice; listing one twice
is no fault.
-/

namespace FoamDict.Keyword

open FoamDict.Highlight (Category)

structure Documentation where
  identifier : String
  text : String
  deriving DecidableEq

structure Sections where
  dictionary : List String := []
  list : List String := []
  lvalue : List String := []
  rvalue : List String := []
  documentation : List Documentation := []
  deriving DecidableEq

/-- All listed identifiers with the category of their list, in reading order. -/
def Sections.listed (s : Sections) : List (String × Category) :=
  s.dictionary.map (·, .dictionary) ++ s.list.map (·, .list) ++ s.lvalue.map (·, .lvalue)
    ++ s.rvalue.map (·, .rvalue)

inductive CatalogFault where
  | emptyIdentifier
  | documentedTwice (identifier : String)
  deriving DecidableEq

def CatalogFault.message : CatalogFault → String
  | emptyIdentifier => "keyword catalog contains an empty identifier"
  | documentedTwice identifier => "identifier `" ++ identifier ++ "` is documented more than once"

/-- The first fault among documentation items, after items for the identifiers in `seen`. -/
def documentationFault? (seen : List String) : List Documentation → Option CatalogFault
  | [] => none
  | item :: rest =>
    if item.identifier.isEmpty then some .emptyIdentifier
    else if seen.contains item.identifier then some (.documentedTwice item.identifier)
    else documentationFault? (item.identifier :: seen) rest

/-- The first fault in reading order: the lists come before the documentation. -/
def Sections.fault? (s : Sections) : Option CatalogFault :=
  if s.listed.any (·.1.isEmpty) then some .emptyIdentifier
  else documentationFault? [] s.documentation

/-- Of the pairs with one identifier, keep the first. -/
def keepFirst : List (String × Category) → List (String × Category)
  | [] => []
  | entry :: rest => entry :: (keepFirst rest).filter (·.1 ≠ entry.1)

structure Catalog where
  classified : List (String × Category)
  documented : List Documentation
  deriving DecidableEq

namespace Catalog

def assemble (s : Sections) : Catalog := ⟨keepFirst s.listed, s.documentation⟩

def ofSections (s : Sections) : Except CatalogFault Catalog :=
  match s.fault? with
  | some fault => .error fault
  | none => .ok (assemble s)

def category? (c : Catalog) (identifier : String) : Option Category :=
  c.classified.lookup identifier

def documentation? (c : Catalog) (identifier : String) : Option String :=
  (c.documented.find? (·.identifier = identifier)).map (·.text)

end Catalog

end FoamDict.Keyword
