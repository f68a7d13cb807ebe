import FoamDict.Server.Dialogue

/-!
# The command line

The program takes a settings file and a log filter, or shows help or its version. Arguments are read
from left to right: help and version win over what stands behind them, and a fault over all that
follows it.
-/

namespace FoamDict

namespace CommandLine

structure Options where
  settingsFile : Option String := none
  logFilter : Option String := none
  deriving DecidableEq

inductive Invocation where
  | help
  | version
  | serve (options : Options)
  | refused
  deriving DecidableEq

inductive Setting where
  | settingsFile
  | logFilter
  deriving DecidableEq

def Setting.ofName? : String → Option Setting
  | "--config" => some settingsFile
  | "--log-filter" => some logFilter
  | _ => none

/-- Give an option its value; each may be given once, and a file needs a name. -/
def Options.give? (o : Options) : Setting → String → Option Options
  | .settingsFile, path =>
    if o.settingsFile.isSome || path.isEmpty then none
    else some { o with settingsFile := some path }
  | .logFilter, directive =>
    if o.logFilter.isSome then none else some { o with logFilter := some directive }

/-- The name of an option and the value joined to it by an equals sign. -/
def attached? (argument : String) : Option (String × String) :=
  match argument.toList.dropWhile (· ≠ '=') with
  | '=' :: value =>
    some (String.ofList (argument.toList.takeWhile (· ≠ '=')), String.ofList value)
  | _ => none

/-- A single hyphen is a value like any other. -/
def isOption (argument : String) : Bool := argument.startsWith "-" && argument ≠ "-"

def readFrom (o : Options) : List String → Invocation
  | [] => .serve o
  | argument :: rest =>
    if argument = "--help" || argument.startsWith "-h" then .help
    else if argument = "--version" || argument.startsWith "-V" then .version
    else if argument = "--" && rest.isEmpty then .serve o
    else match Setting.ofName? argument, rest with
      | some s, value :: rest =>
        if isOption value then .refused
        else match o.give? s value with
          | some o => readFrom o rest
          | none => .refused
      | some _, [] => .refused
      | none, rest =>
        match (attached? argument).bind fun (name, value) =>
            (Setting.ofName? name).bind fun s => o.give? s value with
        | some o => readFrom o rest
        | none => .refused

def read (arguments : List String) : Invocation := readFrom {} arguments

def helpText : String :=
  "Language server for OpenFOAM case dictionaries\n\n" ++
  "Usage: foam-lsp [OPTIONS]\n\n" ++
  "Options:\n" ++
  "      --config <CONFIG>          Configuration file layered over the defaults\n" ++
  "      --log-filter <LOG_FILTER>  Log filter directive, e.g. `foam_lsp=debug`\n" ++
  "  -h, --help                     Print help\n" ++
  "  -V, --version                  Print version\n"

def versionText : String := Server.serverName ++ " " ++ Server.serverVersion ++ "\n"

def refusalText : String :=
  "error: the arguments are not understood\n\nFor more information, try '--help'.\n"

def localFile : String := ".foam-lsp.toml"

def Options.layers (o : Options) : Settings.Layers :=
  let ls := ({} : Settings.Layers).addFile localFile false
  let ls := match o.settingsFile with
    | some path => ls.addFile path true
    | none => ls
  ls.pinFilter o.logFilter

def failureText (fault : Settings.LoadFault) : String :=
  Server.serverName ++ ": failed to load configuration: " ++ fault.message ++ "\n"

/-- How the program starts with its arguments and the files of its working directory. -/
inductive Start where
  | notice (text : String)
  | refused
  | failed (fault : Settings.LoadFault)
  | serve (dialogue : Server.Dialogue)

def start (arguments : List String) (files : Settings.Files) : Start :=
  match read arguments with
  | .help => .notice helpText
  | .version => .notice versionText
  | .refused => .refused
  | .serve o =>
    match o.layers.resolve files with
    | .error fault => .failed fault
    | .ok s => .serve { session := { options := .ofSettings s } }

namespace Start

def exitCode : Start → Nat
  | notice _ => 0
  | refused => 2
  | failed _ => 1
  | serve _ => 0

end Start

end CommandLine

end FoamDict
