import FoamDict.Decimal.Digits

/-!
# Frames

On the wire each message is preceded by header lines and an empty line. One header gives the length
of the message in bytes.
-/

namespace FoamDict.Server.Frame

def lengthHeader : String := "content-length"

/-- Name and value of a header line, with the blanks around the value dropped. -/
def header? (line : String) : Option (String × String) :=
  match line.toList.dropWhile (· ≠ ':') with
  | ':' :: value =>
    some ((String.ofList (line.toList.takeWhile (· ≠ ':'))).toLower,
      (String.ofList value).trimAscii.toString)
  | _ => none

/-- The length that header lines give. -/
def length? (lines : List String) : Option Nat := do
  let (_, value) ← (lines.filterMap header?).find? (·.1 = lengthHeader)
  Decimal.ofDigits? 10 value.toList

def wrap (body : String) : String :=
  "Content-Length: " ++ toString body.utf8ByteSize ++ "\r\n\r\n" ++ body

end FoamDict.Server.Frame
