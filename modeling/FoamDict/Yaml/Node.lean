import FoamDict.Yaml.Token

/-!
# Nodes

A document is a tree of scalars, sequences and mappings. It is put together from tokens one by one,
with the collections that are not complete yet on a stack. A node that is left out where one may
stand is an empty plain scalar.
-/

namespace FoamDict.Yaml

inductive Node where
  | scalar (s : Scalar)
  | sequence (items : List Node)
  | mapping (entries : List (Node × Node))

/-- Where a mapping that is not complete stands. -/
inductive Slot where
  /-- In front of an entry, or at the end. -/
  | entry
  /-- Behind an entry; only mappings in brackets come here. -/
  | afterEntry
  | key
  /-- A key without a value is to come; only in brackets. -/
  | loneKey
  | afterKey (key : Node)
  | value (key : Node)

/-- A collection that is not complete. Items and entries stand last first, and `wanting` tells that
a mark was read and its item is to come. -/
inductive Frame where
  | blockSequence (items : List Node) (wanting : Bool)
  /-- A sequence in a mapping that is not indented deeper than the mapping. -/
  | flatSequence (items : List Node) (wanting : Bool)
  | blockMapping (entries : List (Node × Node)) (slot : Slot)
  | flowSequence (items : List Node) (afterItem : Bool)
  | flowMapping (entries : List (Node × Node)) (slot : Slot)
  /-- A single entry without braces, inside a flow sequence. -/
  | flowPair (slot : Slot)

/-- How far a document has come. -/
inductive Stage where
  | before
  | started
  | content (root : Node)
  | ended (root : Node)

structure Assembly where
  stage : Stage := .before
  frames : List Frame := []

namespace Assembly

def empty : Node := .scalar .missing

def maxDepth : Nat := 128

def push (a : Assembly) (f : Frame) : Option Assembly :=
  if a.frames.length < maxDepth then some { a with frames := f :: a.frames } else none

/-- Put a complete node where it belongs. -/
def deliver (a : Assembly) (n : Node) : Option Assembly :=
  match a.frames with
  | [] =>
    match a.stage with
    | .before | .started => some { a with stage := .content n }
    | _ => none
  | f :: outer =>
    let put (f : Frame) : Option Assembly := some { a with frames := f :: outer }
    match f with
    | .blockSequence items true => put (.blockSequence (n :: items) false)
    | .flatSequence items true => put (.flatSequence (n :: items) false)
    | .blockMapping entries .key => put (.blockMapping entries (.afterKey n))
    | .blockMapping entries (.value k) => put (.blockMapping ((k, n) :: entries) .entry)
    | .flowSequence items false => put (.flowSequence (n :: items) true)
    | .flowMapping entries .key => put (.flowMapping entries (.afterKey n))
    | .flowMapping entries .loneKey => put (.flowMapping ((n, empty) :: entries) .afterEntry)
    | .flowMapping entries (.value k) => put (.flowMapping ((k, n) :: entries) .afterEntry)
    | .flowPair .key => put (.flowPair (.afterKey n))
    | .flowPair (.value k) =>
      match outer with
      | .flowSequence items false :: outer =>
        some { a with frames := .flowSequence (.mapping [(k, n)] :: items) true :: outer }
      | _ => none
    | _ => none

def complete (a : Assembly) (n : Node) : Option Assembly :=
  { a with frames := a.frames.drop 1 }.deliver n

def update (a : Assembly) (f : Frame) : Assembly := { a with frames := f :: a.frames.drop 1 }

/-- The token starts a node. Block collections cannot stand inside brackets, nor do their tokens. -/
def startNode (a : Assembly) : Token → Option Assembly
  | .scalar s => a.deliver (.scalar s)
  | .blockSequenceStart => a.push (.blockSequence [] false)
  | .blockMappingStart => a.push (.blockMapping [] .entry)
  | .flowSequenceStart => a.push (.flowSequence [] false)
  | .flowMappingStart => a.push (.flowMapping [] .entry)
  | _ => none

def blockSequenceStep (a : Assembly) (items : List Node) :
    (wanting : Bool) → Token → Option Assembly
  | false, .entry => some (a.update (.blockSequence items true))
  | false, .blockEnd => a.complete (.sequence items.reverse)
  | false, _ => none
  | true, .entry => some (a.update (.blockSequence (empty :: items) true))
  | true, .blockEnd => a.complete (.sequence (empty :: items).reverse)
  | true, t => a.startNode t

def blockMappingStep (a : Assembly) (entries : List (Node × Node)) : Slot → Token → Option Assembly
  | .entry, .key => some (a.update (.blockMapping entries .key))
  | .entry, .blockEnd => a.complete (.mapping entries.reverse)
  | .key, .key => some (a.update (.blockMapping ((empty, empty) :: entries) .key))
  | .key, .value => some (a.update (.blockMapping entries (.value empty)))
  | .key, .blockEnd => a.complete (.mapping ((empty, empty) :: entries).reverse)
  | .afterKey k, .key => some (a.update (.blockMapping ((k, empty) :: entries) .key))
  | .afterKey k, .value => some (a.update (.blockMapping entries (.value k)))
  | .afterKey k, .blockEnd => a.complete (.mapping ((k, empty) :: entries).reverse)
  | .value k, .key => some (a.update (.blockMapping ((k, empty) :: entries) .key))
  | .value k, .blockEnd => a.complete (.mapping ((k, empty) :: entries).reverse)
  | .key, .entry | .value _, .entry => a.push (.flatSequence [] true)
  | .key, t | .value _, t => a.startNode t
  | _, _ => none

def flowSequenceStep (a : Assembly) (items : List Node) (afterItem : Bool) : Token → Option Assembly
  | .flowSequenceEnd => a.complete (.sequence items.reverse)
  | .comma => if afterItem then some (a.update (.flowSequence items false)) else none
  | .key => if afterItem then none else a.push (.flowPair .key)
  | t => if afterItem then none else a.startNode t

def flowMappingStep (a : Assembly) (entries : List (Node × Node)) : Slot → Token → Option Assembly
  | .entry, .flowMappingEnd | .afterEntry, .flowMappingEnd => a.complete (.mapping entries.reverse)
  | .entry, .key => some (a.update (.flowMapping entries .key))
  | .entry, t => (a.update (.flowMapping entries .loneKey)).startNode t
  | .afterEntry, .comma => some (a.update (.flowMapping entries .entry))
  | .key, .comma => some (a.update (.flowMapping ((empty, empty) :: entries) .entry))
  | .key, .value => some (a.update (.flowMapping entries (.value empty)))
  | .key, .flowMappingEnd => a.complete (.mapping ((empty, empty) :: entries).reverse)
  | .afterKey k, .value => some (a.update (.flowMapping entries (.value k)))
  | .afterKey k, .comma | .value k, .comma =>
    some (a.update (.flowMapping ((k, empty) :: entries) .entry))
  | .afterKey k, .flowMappingEnd | .value k, .flowMappingEnd =>
    a.complete (.mapping ((k, empty) :: entries).reverse)
  | .key, t | .value _, t => a.startNode t
  | _, _ => none

/-- Take the frames that the token leaves complete from the stack, without taking the token. -/
def settle (a : Assembly) (t : Token) : Option Assembly :=
  match a.frames, t with
  | .flatSequence _ _ :: _, .entry => some a
  | .flatSequence items false :: _, _ => a.complete (.sequence items.reverse)
  | .flatSequence items true :: _, .key
  | .flatSequence items true :: _, .value
  | .flatSequence items true :: _, .blockEnd => a.complete (.sequence (empty :: items).reverse)
  | .flowPair (.afterKey _) :: _, .value => some a
  | .flowPair (.afterKey k) :: _, _ => a.complete (.mapping [(k, empty)])
  | .flowPair (.value k) :: _, .comma
  | .flowPair (.value k) :: _, .flowSequenceEnd => a.complete (.mapping [(k, empty)])
  | _, _ => some a

def documentStep (a : Assembly) (t : Token) : Option Assembly :=
  match a.stage, t with
  | .before, .documentStart => some { a with stage := .started }
  | .before, .documentEnd => none
  | .before, t => a.startNode t
  | .started, .documentEnd => some { a with stage := .ended empty }
  | .started, t => a.startNode t
  | .content root, .documentEnd | .ended root, .documentEnd => some { a with stage := .ended root }
  | _, _ => none

def step (a : Assembly) (t : Token) : Option Assembly := do
  let a ← a.settle t
  match a.frames with
  | [] => a.documentStep t
  | .blockSequence items wanting :: _ => a.blockSequenceStep items wanting t
  | .flatSequence items true :: _ =>
    match t with
    | .entry => return a.update (.flatSequence (empty :: items) true)
    | t => a.startNode t
  | .flatSequence items false :: _ => return a.update (.flatSequence items true)
  | .blockMapping entries slot :: _ => a.blockMappingStep entries slot t
  | .flowSequence items afterItem :: _ => a.flowSequenceStep items afterItem t
  | .flowMapping entries slot :: _ => a.flowMappingStep entries slot t
  | .flowPair .key :: _ => a.startNode t
  | .flowPair (.afterKey k) :: _ => return a.update (.flowPair (.value k))
  | .flowPair (.value _) :: _ => a.startNode t
  | .flowPair _ :: _ => none

/-- The document, if the tokens end here; a text may hold none. -/
def root? (a : Assembly) : Option (Option Node) :=
  match a.frames, a.stage with
  | [], .before => some none
  | [], .started => some (some empty)
  | [], .content root => some (some root)
  | [], .ended root => some (some root)
  | _ :: _, _ => none

end Assembly

def Node.ofTokens? (ts : List Token) : Option (Option Node) := do
  (← ts.foldlM Assembly.step {}).root?

end FoamDict.Yaml
