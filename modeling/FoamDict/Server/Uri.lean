/-!
# Document addresses

Documents are told apart by their address in normal form: the scheme in lower case, no dot segments
in the path, and percent escapes for characters that an address cannot hold as they are.
-/

namespace FoamDict.Server

/-- An address in normal form. -/
structure Uri where
  text : String
  deriving DecidableEq

namespace Uri

def hexDigit (n : Nat) : Char := (Nat.digitChar n).toUpper

/-- The bytes of a character, each as a percent sign and two digits. -/
def percent (c : Char) : List Char :=
  (String.singleton c).toUTF8.toList.flatMap fun b =>
    ['%', hexDigit (b.toNat / 16), hexDigit (b.toNat % 16)]

/-- Escape controls, characters that are not ASCII, and those in `reserved`. -/
def escape (reserved : List Char) (cs : List Char) : List Char :=
  cs.flatMap fun c =>
    if c.val < 0x20 || 0x7e < c.val || reserved.contains c then percent c else [c]

def inFragment : List Char := [' ', '"', '<', '>', '\x60']

def inQuery : List Char := [' ', '"', '#', '<', '>']

def inPath : List Char := inFragment ++ ['#', '?', '\x7b', '\x7d']

def isSchemeChar (c : Char) : Bool := c.isAlphanum || c = '+' || c = '-' || c = '.'

/-- Schemes whose addresses name a host and a path, and read a backslash as a slash. -/
def isHostScheme (scheme : String) : Bool :=
  ["file", "http", "https", "ws", "wss", "ftp"].contains scheme

/-- How many steps up a path segment takes: none for the place itself, one for the one above. -/
def dots? (segment : List Char) : Option Nat :=
  let s := (String.ofList segment).toLower
  if [".", "%2e"].contains s then some 0
  else if ["..", ".%2e", "%2e.", "%2e%2e"].contains s then some 1
  else none

/-- Resolve dot segments; `done` holds the segments so far, last first. -/
def resolve (done : List (List Char)) : List (List Char) → List (List Char)
  | [] => done.reverse
  | segment :: rest =>
    match dots? segment, rest with
    | none, rest => resolve (segment :: done) rest
    | some up, [] => ([] :: done.drop up).reverse
    | some up, rest => resolve (done.drop up) rest

/-- A path behind its first slash. -/
def normalPath (path : List Char) : List Char :=
  '/' :: ['/'].intercalate (resolve [] (path.splitOn '/') |>.map (escape inPath))

/-- What stands before the first character that satisfies `p`, and the rest from there. -/
def cut (p : Char → Bool) (cs : List Char) : List Char × List Char :=
  (cs.takeWhile (!p ·), cs.dropWhile (!p ·))

/-- The query and the fragment, each with the mark in front of it. -/
def normalTail (tail : List Char) : List Char :=
  let (query, fragment) := cut (· = '#') tail
  escape inQuery query ++ (match fragment with
    | '#' :: rest => '#' :: escape inFragment rest
    | _ => [])

def lower (cs : List Char) : List Char := cs.map Char.toLower

/-- The part of an address behind the scheme and its colon. -/
def normalRest? (scheme : String) (rest : List Char) : Option (List Char) :=
  let (main, tail) := cut (fun c => c = '?' || c = '#') rest
  let tail := normalTail tail
  if isHostScheme scheme then
    let main := main.map fun c => if c = '\\' then '/' else c
    let (host, path) := match main with
      | '/' :: '/' :: more => cut (· = '/') more
      | path => ([], path)
    let host := if scheme = "file" && lower host = "localhost".toList then [] else lower host
    if scheme ≠ "file" && host.isEmpty then none
    else some ("//".toList ++ escape inPath host ++ normalPath (path.dropWhile (· = '/')) ++ tail)
  else
    match main with
    | '/' :: '/' :: more =>
      let (host, path) := cut (· = '/') more
      let path := match path with
        | '/' :: path => normalPath path
        | _ => []
      some ("//".toList ++ escape inPath host ++ path ++ tail)
    | '/' :: path => some (normalPath path ++ tail)
    | path => some (escape [] path ++ tail)

def isEdge (c : Char) : Bool := c.val ≤ 0x20

/-- The normal form of an address, if the text has a scheme. -/
def parse? (text : String) : Option Uri := do
  let cs := ((text.toList.dropWhile isEdge).reverse.dropWhile isEdge).reverse
  let cs := cs.filter fun c => c ≠ '\t' && c ≠ '\n' && c ≠ '\r'
  let (scheme, rest) := cut (· = ':') cs
  let scheme := String.ofList (lower scheme)
  if scheme.toList.head?.any Char.isAlpha && scheme.toList.all isSchemeChar then
    match rest with
    | ':' :: rest =>
      let rest ← normalRest? scheme rest
      some ⟨scheme ++ ":" ++ String.ofList rest⟩
    | _ => none
  else none

end Uri

end FoamDict.Server
