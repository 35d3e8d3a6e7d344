import WordMachine.Encoding.Malformed

/-!
# UTF-16

A unit is two octets, in an order that is fixed for the whole text. A character beyond U+FFFF is a
high surrogate followed by a low one; a surrogate that is no part of such a pair is refused.
-/

namespace WordMachine.Encoding.Utf16

/-- Which octet of a unit comes first. -/
inductive Order where
  /-- The low octet comes first. -/
  | little
  /-- The high octet comes first. -/
  | big
deriving DecidableEq, Repr

/-- The name of the scheme in messages. -/
def Order.scheme : Order → Malformed.Scheme
  | little => .utf16le
  | big => .utf16be

/-- The unit that two octets make. -/
def Order.unit : Order → UInt8 → UInt8 → Nat
  | little, a, b => a.toNat + 256 * b.toNat
  | big, a, b => 256 * a.toNat + b.toNat

/-- The two octets of a unit. -/
def Order.octets : Order → Nat → List UInt8
  | little, n => [UInt8.ofNat (n % 256), UInt8.ofNat (n / 256)]
  | big, n => [UInt8.ofNat (n / 256), UInt8.ofNat (n % 256)]

/-- Whether a unit is the first half of a pair. -/
def isHigh (n : Nat) : Bool :=
  0xD800 ≤ n && n ≤ 0xDBFF

/-- Whether a unit is the second half of a pair. -/
def isLow (n : Nat) : Bool :=
  0xDC00 ≤ n && n ≤ 0xDFFF

/-- The code point of a pair. -/
def paired (high low : Nat) : Nat :=
  0x10000 + (high - 0xD800) * 0x400 + (low - 0xDC00)

/-- Decodes octets from position `pos` on. A high surrogate without two octets behind it is at fault
together with what is left. -/
def decodeFrom (order : Order) (pos : Nat) : List UInt8 → Except Malformed (List Char)
  | [] => .ok []
  | [a] => .error ⟨order.scheme, pos, pos, a, .truncated⟩
  | a :: b :: rest =>
    let u := order.unit a b
    if isLow u then .error ⟨order.scheme, pos, pos + 1, a, .unpairedLow⟩
    else if isHigh u then
      match rest with
      | c :: d :: rest =>
        let v := order.unit c d
        if isLow v then (decodeFrom order (pos + 4) rest).map (Char.ofNat (paired u v) :: ·)
        else .error ⟨order.scheme, pos, pos + 1, a, .unpairedHigh⟩
      | [_] => .error ⟨order.scheme, pos, pos + 2, a, .unexpectedEnd⟩
      | [] => .error ⟨order.scheme, pos, pos + 1, a, .unexpectedEnd⟩
    else (decodeFrom order (pos + 2) rest).map (Char.ofNat u :: ·)

/-- Decodes UTF-16 in a known order. -/
def decode (order : Order) (octets : List UInt8) : Except Malformed (List Char) :=
  decodeFrom order 0 octets

/-- The octets of a character. -/
def encodeChar (order : Order) (c : Char) : List UInt8 :=
  let n := c.toNat
  if n < 0x10000 then order.octets n
  else
    order.octets (0xD800 + (n - 0x10000) / 0x400) ++ order.octets (0xDC00 + (n - 0x10000) % 0x400)

/-- Encodes UTF-16 in a given order. -/
def encode (order : Order) (cs : List Char) : List UInt8 :=
  cs.flatMap (encodeChar order)

/-- The byte order mark. -/
def mark (order : Order) : List UInt8 :=
  order.octets 0xFEFF

/-- The order that a byte order mark at the start of a text tells. -/
def order? : List UInt8 → Option Order
  | 0xFF :: 0xFE :: _ => some .little
  | 0xFE :: 0xFF :: _ => some .big
  | _ => none

end WordMachine.Encoding.Utf16
