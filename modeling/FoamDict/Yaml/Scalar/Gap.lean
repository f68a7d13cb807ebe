import FoamDict.Yaml.Cursor

/-!
# Gaps between the words of a scalar

A scalar that runs over several lines is folded: a single line feed between words counts as a space
and each further break stands for itself. Blanks around breaks are dropped; blanks within a line
are kept.
-/

namespace FoamDict.Yaml

/-- Blanks before the first line break and the breaks behind them. -/
structure Gap where
  blanks : List Char
  breaks : List Char
  /-- Whether the line goes on behind an escaped break. -/
  continued : Bool := false

namespace Gap

def crossesLine (g : Gap) : Bool := g.continued || !g.breaks.isEmpty

def folded (g : Gap) : List Char :=
  if g.continued then g.breaks
  else match g.breaks with
    | [] => g.blanks
    | ['\n'] => [' ']
    | '\n' :: more => more
    | breaks => breaks

/-- Take a break; it drops the blanks that stand before the first one. -/
def addBreak (g : Gap) (d : Char) : Gap :=
  if g.crossesLine then { g with breaks := g.breaks ++ [d] } else ⟨[], [d], false⟩

/-- One blank or break. A tab to the left of `indent` must not stand for indentation. -/
def step (indent : Nat) (c : Cursor) (g : Gap) : Option (Turn Cursor Gap) :=
  match c.takeBreak? with
  | some (d, next) => some (.more next (g.addBreak d))
  | none =>
    match c.peek? with
    | some d =>
      if !isBlank d then some (.done c g)
      else if g.crossesLine then
        if d = '\t' && c.column < indent then none else some (.more (c.advance 1) g)
      else some (.more (c.advance 1) { g with blanks := g.blanks ++ [d] })
    | none => some (.done c g)

def read (indent : Nat) (continued : Bool) (c : Cursor) : Option (Cursor × Gap) :=
  c.loop (step indent) ⟨[], [], continued⟩

end Gap

end FoamDict.Yaml
