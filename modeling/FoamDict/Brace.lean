import FoamDict.Text.Column
import FoamDict.Text.Line

/-!
# Brace balance

Opening and closing braces are counted wherever they stand, comments and strings included. A line
after which more braces have been closed than opened is at fault, and counting starts again from
zero behind it. Braces still open at the end are a fault of the last line.
-/

namespace FoamDict.Brace

def balance (cs : List Char) : Int := (cs.count '\x7b' : Int) - (cs.count '\x7d' : Int)

inductive FaultKind where
  | unmatchedClose
  | missingClose (count : Nat)
  deriving DecidableEq

structure Fault where
  extent : Text.Extent
  kind : FaultKind
  deriving DecidableEq

def FaultKind.message : FaultKind → String
  | unmatchedClose => "Unexpected closing brace '\x7d': no matching opening brace."
  | missingClose count => "Missing " ++ toString count ++ " closing brace(s) '\x7d'."

/-- Editors rank faults by number; an unbalanced brace is an error. -/
def severity : Nat := 1

/-- The faults of consecutive lines: `index` numbers the first one, `depth` counts the braces open
before it, and `last` is the extent of the line before it. -/
def faultsFrom : Nat → Nat → Text.Extent → List (List Char) → List Fault
  | _, depth, last, [] => if depth = 0 then [] else [⟨last, .missingClose depth⟩]
  | index, depth, _, line :: rest =>
    let here := Text.Extent.ofLine index line
    let after := depth + balance line
    if after < 0 then ⟨here, .unmatchedClose⟩ :: faultsFrom (index + 1) 0 here rest
    else faultsFrom (index + 1) after.toNat here rest

def faults (text : List Char) : List Fault := faultsFrom 0 0 ⟨0, 0, 0⟩ (Text.lines text)

end FoamDict.Brace
