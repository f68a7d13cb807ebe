import FoamDict.Highlight.Category
import FoamDict.Text.Scan

/-!
# Spans

A span is a highlighted stretch of one line.
-/

namespace FoamDict.Highlight

structure Span where
  line : Nat
  start : Nat
  length : Nat
  category : Category
  deriving DecidableEq

namespace Span

def ofOccurrence (line : Nat) (category : Category) (o : Text.Occurrence) : Span :=
  ⟨line, o.start, o.width, category⟩

/-- Not after, by line and then by start; neither length nor category counts. -/
def notAfter (a b : Span) : Bool := a.line < b.line || (a.line = b.line && a.start ≤ b.start)

end Span

end FoamDict.Highlight
