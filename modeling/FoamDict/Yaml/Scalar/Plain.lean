import FoamDict.Yaml.Scalar.Gap

/-!
# Plain scalars

A plain scalar goes on to a colon with a gap behind it, to a comment, or, inside brackets, to a
bracket or comma. It may run over several lines as long as they are indented deeper than what holds
it.
-/

namespace FoamDict.Yaml

def isBracket (c : Char) : Bool := c = '[' || c = ']' || c = '\x7b' || c = '\x7d'

namespace Plain

/-- The characters up to the next gap or the end of the scalar. Inside brackets a colon directly
before a bracket, comma or question mark is an error. -/
def wordLength? (flow : Bool) : List Char → Option Nat
  | [] => some 0
  | c :: rest =>
    if isBlank c || isBreak c then some 0
    else if c = ':' && rest.head?.all (fun d => isBlank d || isBreak d) then some 0
    else if flow && c = ':' && rest.head?.any (fun d => isBracket d || d = ',' || d = '?') then none
    else if flow && (isBracket c || c = ',') then some 0
    else (wordLength? flow rest).map (· + 1)

structure Progress where
  text : List Char := []
  gap : Gap := ⟨[], [], false⟩

/-- One word and the gap behind it. -/
def step (flow : Bool) (indent : Nat) (c : Cursor) (p : Progress) :
    Option (Turn Cursor Progress) := do
  if c.atDocumentMark || c.sees 0 (· = '#') then return .done c p
  let length ← wordLength? flow c.rest
  let next := c.advance length
  let p := if length = 0 then p
    else ⟨p.text ++ p.gap.folded ++ c.rest.take length, ⟨[], [], false⟩⟩
  if next.atEnd || !next.gapAt 0 then return .done next p
  let (next, gap) ← Gap.read indent false next
  let p := { p with gap := gap }
  if !flow && next.column < indent then return .done next p
  return .more next p

/-- The text of a plain scalar and whether a line break follows it; lines have to be indented to
column `indent`. -/
def read (flow : Bool) (indent : Nat) (c : Cursor) : Option (Cursor × List Char × Bool) := do
  let (next, p) ← c.loop (step flow indent) {}
  return (next, p.text, p.gap.crossesLine)

end Plain

end FoamDict.Yaml
