import FoamDict.CommandLine
import FoamDict.Json.Printer
import FoamDict.Server.Frame

/-!
# The program

Reads arguments, settings files and framed messages, and writes framed messages. What to do with
them is decided elsewhere.
-/

namespace FoamDict.Main

open FoamDict.Server (Dialogue Frame.length? Frame.wrap Outgoing)

def readFile? (name : String) : IO (Option (String × String)) := do
  try
    return some (name, ← IO.FS.readFile name)
  catch _ =>
    return none

/-- The settings files that are there, of those that the arguments name. -/
def readFiles (arguments : List String) : IO Settings.Files := do
  match CommandLine.read arguments with
  | .serve o => return (← o.layers.candidates.mapM readFile?).filterMap id
  | _ => return []

/-- The header lines in front of a message; none at the end of the input. -/
partial def readHeader (input : IO.FS.Stream) (lines : List String) :
    IO (Option (List String)) := do
  let line ← input.getLine
  if line.isEmpty then return none
  let text := line.trimAscii.toString
  if text.isEmpty then return some lines.reverse
  readHeader input (text :: lines)

partial def readBytes (input : IO.FS.Stream) (count : Nat) (done : ByteArray) : IO ByteArray := do
  if done.size ≥ count then return done
  let chunk ← input.read (count - done.size).toUSize
  if chunk.isEmpty then return done
  readBytes input count (done ++ chunk)

def send (output : IO.FS.Stream) (message : Outgoing) : IO Unit := do
  output.putStr (Frame.wrap message.encode.print)
  output.flush

partial def serve (input output : IO.FS.Stream) (d : Dialogue) : IO Unit := do
  let some lines ← readHeader input [] | return
  let some length := Frame.length? lines | serve input output d
  let bytes ← readBytes input length .empty
  let (next, messages) := d.receive ((String.fromUTF8? bytes).getD "")
  messages.forM (send output)
  if next.phase ≠ .ended then serve input output next

end FoamDict.Main

def main (arguments : List String) : IO UInt32 := do
  let start := FoamDict.CommandLine.start arguments (← FoamDict.Main.readFiles arguments)
  match start with
  | .notice text => IO.print text
  | .refused => IO.eprint FoamDict.CommandLine.refusalText
  | .failed fault => IO.eprint (FoamDict.CommandLine.failureText fault)
  | .serve dialogue => FoamDict.Main.serve (← IO.getStdin) (← IO.getStdout) dialogue
  return start.exitCode.toUInt32
