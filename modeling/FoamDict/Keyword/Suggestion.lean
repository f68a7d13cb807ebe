import FoamDict.Keyword.Catalog

/-!
# Suggestions

Every documented keyword is offered as a completion, in the order of the documentation, with the
text that hover shows for it.
-/

namespace FoamDict.Keyword

def Documentation.markdown (d : Documentation) : String :=
  "**" ++ d.identifier ++ "**\n\n" ++ d.text

/-- The detail that goes with each suggestion unless settings name another. -/
def defaultDetail : String := "OpenFOAM keyword"

/-- The number that editors know suggested keywords by. -/
def suggestionKind : Nat := 14

structure Suggestion where
  label : String
  detail : String
  documentation : String
  deriving DecidableEq

def Suggestion.ofDocumentation (d : Documentation) : Suggestion :=
  ⟨d.identifier, defaultDetail, d.markdown⟩

def Catalog.suggestions (c : Catalog) : List Suggestion :=
  c.documented.map Suggestion.ofDocumentation

end FoamDict.Keyword
