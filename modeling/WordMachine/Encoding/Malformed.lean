import WordMachine.Text.Quoted

/-!
# Malformed octets

What is wrong with octets that cannot be decoded: the scheme they were read by, the octets at fault
by their positions, and the reason.
-/

namespace WordMachine.Encoding

/-- Why octets are no text. -/
inductive Malformed.Reason where
  | invalidStart
  | invalidContinuation
  | unexpectedEnd
  | notAscii
  | truncated
  | unpairedHigh
  | unpairedLow
deriving DecidableEq, Repr

/-- The wording of a reason. -/
def Malformed.Reason.text : Malformed.Reason → String
  | invalidStart => "invalid start byte"
  | invalidContinuation => "invalid continuation byte"
  | unexpectedEnd => "unexpected end of data"
  | notAscii => "ordinal not in range(128)"
  | truncated => "truncated data"
  | unpairedHigh => "illegal UTF-16 surrogate"
  | unpairedLow => "illegal encoding"

/-- The scheme that octets were read by. -/
inductive Malformed.Scheme where
  | ascii
  | utf8
  | utf16le
  | utf16be
deriving DecidableEq, Repr

/-- The wording of a scheme. -/
def Malformed.Scheme.text : Malformed.Scheme → String
  | ascii => "ascii"
  | utf8 => "utf-8"
  | utf16le => "utf-16-le"
  | utf16be => "utf-16-be"

/-- Octets that cannot be decoded: those from position `first` through `last`, of which `octet` is
the first. -/
structure Malformed where
  scheme : Malformed.Scheme
  first : Nat
  last : Nat
  octet : UInt8
  reason : Malformed.Reason
deriving DecidableEq, Repr

/-- A single octet is shown in hexadecimal, several by their positions. -/
def Malformed.message (m : Malformed) : String :=
  let what :=
    if m.first = m.last then
      "byte 0x" ++ String.ofList (Text.hexPadded 2 m.octet.toNat) ++ " in position " ++ m.first.repr
    else "bytes in position " ++ m.first.repr ++ "-" ++ m.last.repr
  Text.quoted m.scheme.text ++ " codec can't decode " ++ what ++ ": " ++ m.reason.text

end WordMachine.Encoding
