/-!
# Readers

A reader takes a value from the front of a text and leaves the rest, or fails. Repetition stops
where its step answers that nothing follows; a step that answers with an item has to take at least
one character for it. The number of characters left is kept beside them.
-/

namespace FoamDict.Text

structure Input where
  text : List Char
  left : Nat := text.length

def Input.drop (i : Input) (count : Nat) : Input := ⟨i.text.drop count, i.left - count⟩

abbrev Reader := StateT Input Option

namespace Reader

variable {α : Type}

def fail : Reader α := fun _ => none

/-- The next character, left in place. -/
def peek? : Reader (Option Char) := fun i => some (i.text.head?, i)

def next : Reader Char := fun i => i.text.head?.map fun c => (c, i.drop 1)

def drop (count : Nat) : Reader Unit := fun i => some ((), i.drop count)

/-- Take the character `c` if it comes next, and tell whether it did. -/
def skip? (c : Char) : Reader Bool := fun i =>
  if i.text.head? = some c then some (true, i.drop 1) else some (false, i)

def skip (c : Char) : Reader Unit := do
  unless ← skip? c do fail

/-- Take `word` if the text starts with it, and tell whether it did. -/
def skipAll? (word : List Char) : Reader Bool := fun i =>
  if word.isPrefixOf i.text then some (true, i.drop word.length) else some (false, i)

/-- The next `count` characters, or fewer at the end. -/
def take (count : Nat) : Reader (List Char) := fun i => some (i.text.take count, i.drop count)

/-- How many characters `takeWhile` would take. -/
def peekWhile (p : Char → Bool) : Reader Nat := fun i => some ((i.text.takeWhile p).length, i)

def takeWhile (p : Char → Bool) : Reader (List Char) := fun i =>
  let taken := i.text.takeWhile p
  some (taken, i.drop taken.length)

/-- As `takeWhile`, but at least one character. -/
def takeSome (p : Char → Bool) : Reader (List Char) := do
  let taken ← takeWhile p
  if taken.isEmpty then fail else pure taken

def atEnd : Reader Bool := fun i => some (i.text.isEmpty, i)

def guard (condition : Bool) : Reader Unit := unless condition do fail

/-- What the reader answers, or nothing with no character taken. -/
def attempt (reader : Reader α) : Reader (Option α) := fun i =>
  match reader i with
  | some (a, rest) => some (some a, rest)
  | none => some (none, i)

def orElse (first second : Reader α) : Reader α := fun i => (first i).or (second i)

def ofOption : Option α → Reader α
  | some a => pure a
  | none => fail

def collectFrom (step : Reader (Option α)) (done : List α) (i : Input) : Option (List α × Input) :=
  match step i with
  | none => none
  | some (none, rest) => some (done.reverse, rest)
  | some (some item, rest) =>
    if rest.left < i.left then collectFrom step (item :: done) rest else none
termination_by i.left

/-- The items that `step` reads until it answers `none`. -/
def collect (step : Reader (Option α)) : Reader (List α) := collectFrom step []

def readAll? (reader : Reader α) (text : List Char) : Option α :=
  match reader { text := text } with
  | some (a, rest) => if rest.text.isEmpty then some a else none
  | none => none

end Reader

end FoamDict.Text
