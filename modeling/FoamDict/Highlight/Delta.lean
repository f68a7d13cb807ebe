import FoamDict.Highlight.Span

/-!
# The delta stream

Editors take spans as a stream of tokens, each placed relative to the one before it: by lines, and
on the same line by columns. Differences stop at zero, so a stream can be read back only if its
spans are in order.
-/

namespace FoamDict.Highlight

structure DeltaToken where
  deltaLine : Nat
  deltaStart : Nat
  length : Nat
  tokenType : Nat
  deriving DecidableEq

namespace DeltaToken

def fields (t : DeltaToken) : List Nat := [t.deltaLine, t.deltaStart, t.length, t.tokenType, 0]

end DeltaToken

namespace Delta

def encodeFrom (line start : Nat) : List Span → List DeltaToken
  | [] => []
  | s :: rest =>
    let deltaLine := s.line - line
    let deltaStart := if deltaLine = 0 then s.start - start else s.start
    ⟨deltaLine, deltaStart, s.length, s.category.code⟩ :: encodeFrom s.line s.start rest

def encode (spans : List Span) : List DeltaToken := encodeFrom 0 0 spans

def decodeFrom (line start : Nat) : List DeltaToken → Option (List Span)
  | [] => some []
  | t :: rest => do
    let category ← Category.ofCode? t.tokenType
    let line := line + t.deltaLine
    let start := if t.deltaLine = 0 then start + t.deltaStart else t.deltaStart
    let spans ← decodeFrom line start rest
    some (⟨line, start, t.length, category⟩ :: spans)

/-- Reads a stream back; fails on a token type outside the legend. -/
def decode (tokens : List DeltaToken) : Option (List Span) := decodeFrom 0 0 tokens

end Delta

end FoamDict.Highlight
