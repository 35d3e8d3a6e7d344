import WordMachine.Encoding
import WordMachine.Encoding.Utf8
import WordMachine.Encoding.Utf16

/-!
# Decoding and encoding

`Encoding.decode` turns the octets of a source into characters, and `Encoding.encode?` is its other
side: the octets that store a text, with a byte order mark where the encoding wants one.
-/

namespace WordMachine.Encoding

/-- Why octets cannot be read in an encoding. -/
inductive DecodeError where
  | malformed (m : Malformed)
  /-- Two octets or more of UTF-16 that would decode, but start with no byte order mark. -/
  | missingMark
deriving DecidableEq, Repr

/-- Decodes ASCII from position `pos` on. -/
def decodeAscii (pos : Nat) : List UInt8 → Except Malformed (List Char)
  | [] => .ok []
  | b :: bs =>
    if b.toNat < 0x80 then (decodeAscii (pos + 1) bs).map (Char.ofNat b.toNat :: ·)
    else .error ⟨.ascii, pos, pos, b, .notAscii⟩

/-- Decodes UTF-8 behind an optional byte order mark. Octets that are only the beginning of a mark
are an empty text. -/
def decodeSigned (octets : List UInt8) : Except Malformed (List Char) :=
  if octets.isPrefixOf Utf8.mark then .ok []
  else if Utf8.mark.isPrefixOf octets then Utf8.decode (octets.drop Utf8.mark.length)
  else Utf8.decode octets

/-- Decodes UTF-16 by its byte order mark. Without one, the octets are tried with the low octet
first, and fewer than two octets need none. -/
def decodeMarked (octets : List UInt8) : Except DecodeError (List Char) :=
  match Utf16.order? octets with
  | some order => (Utf16.decodeFrom order 2 (octets.drop 2)).mapError .malformed
  | none =>
    match Utf16.decode .little octets with
    | .error m => .error (.malformed m)
    | .ok cs => if octets.length < 2 then .ok cs else .error .missingMark

/-- Decodes octets. -/
def decode (e : Encoding) (octets : List UInt8) : Except DecodeError (List Char) :=
  match e with
  | utf8 => (Utf8.decode octets).mapError .malformed
  | utf8Signed => (decodeSigned octets).mapError .malformed
  | ascii => (decodeAscii 0 octets).mapError .malformed
  | latin1 => .ok (octets.map fun b => Char.ofNat b.toNat)
  | utf16 => decodeMarked octets
  | utf16le => (Utf16.decode .little octets).mapError .malformed
  | utf16be => (Utf16.decode .big octets).mapError .malformed

/-- The octets of characters that are all below `bound`, one octet each. -/
def encodeBelow? (bound : Nat) (cs : List Char) : Option (List UInt8) :=
  if cs.all (·.toNat < bound) then some (cs.map fun c => UInt8.ofNat c.toNat) else none

/-- The octets that store a text, if the encoding has all its characters. Of the two byte orders a
marked UTF-16 text takes the little one. -/
def encode? (e : Encoding) (cs : List Char) : Option (List UInt8) :=
  match e with
  | utf8 => some (Utf8.encode cs)
  | utf8Signed => some (Utf8.mark ++ Utf8.encode cs)
  | ascii => encodeBelow? 0x80 cs
  | latin1 => encodeBelow? 0x100 cs
  | utf16 => some (Utf16.mark .little ++ Utf16.encode .little cs)
  | utf16le => some (Utf16.encode .little cs)
  | utf16be => some (Utf16.encode .big cs)

end WordMachine.Encoding
