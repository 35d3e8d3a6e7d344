import WordMachine.Encoding.Decode
import WordMachine.MachineError
import WordMachine.Text.Lines

/-!
# Reading sources

A source is read whole: its octets are decoded, and every line end becomes a line feed. A source
that cannot be opened or decoded is an error of the machine. It is a fault if no encoding is named or
if the encoding does not exist, and also if a name holds U+0000. A file is opened after its encoding
was named and before it is looked up.
-/

namespace WordMachine.Source

/-- Whether a name holds the character U+0000. -/
def hasNull (name : String) : Bool :=
  name.toList.contains '\x00'

/-- The text that octets hold in the encoding of a given name. -/
def ofOctets (origin : Origin) (encoding : String) (octets : List UInt8) :
    Except Failure String :=
  match Encoding.ofName? encoding with
  | none => .error (.fault (.unknownEncoding encoding))
  | some e =>
    match e.decode octets with
    | .ok cs => .ok (String.ofList (Text.foldNewlines cs))
    | .error (.malformed m) => .error (.error (.sourceUnreadable origin (.malformed m)))
    | .error .missingMark => .error (.fault .missingByteOrderMark)

/-- Reads a file in an encoding that should be named. -/
def read (files : Files) (encoding : Option String) (path : String) : Except Failure String :=
  match encoding with
  | none => .error (.fault .unnamedFileEncoding)
  | some encoding =>
    if hasNull encoding then .error (.fault .nullInEncoding)
    else if hasNull path then .error (.fault .nullInPath)
    else
      match files path with
      | .error reason => .error (.error (.sourceUnreadable (.file path) (.notOpened path reason)))
      | .ok octets => ofOctets (.file path) encoding octets

/-- Reads standard input, given all its octets, in an encoding that should be named. -/
def readInput (encoding : Option String) (octets : List UInt8) : Except Failure String :=
  match encoding with
  | none => .error (.fault .unnamedInputEncoding)
  | some encoding =>
    if hasNull encoding then .error (.fault .nullInEncoding)
    else ofOctets .standardInput encoding octets

end WordMachine.Source
