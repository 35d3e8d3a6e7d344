import WordMachine.Encoding.Malformed

/-!
# UTF-8

Decoding reads one octet at a time. Between characters it expects an ASCII octet or the lead of a
sequence; a lead fixes how many octets follow and the range of the second one, so that overlong
forms, surrogates and values beyond U+10FFFF are refused at the first octet that makes them one.
-/

namespace WordMachine.Encoding.Utf8

/-- A sequence that has begun: the position and value of its lead, the value so far, the range that
the next octet has to lie in, and how many octets follow that one. -/
structure Pending where
  start : Nat
  lead : UInt8
  value : Nat
  low : Nat
  high : Nat
  more : Nat
deriving DecidableEq, Repr

/-- The sequence that the octet `b` at position `pos` begins. -/
def Pending.ofLead? (pos : Nat) (b : UInt8) : Option Pending :=
  let n := b.toNat
  if 0xC2 ≤ n ∧ n ≤ 0xDF then some ⟨pos, b, n - 0xC0, 0x80, 0xBF, 0⟩
  else if n = 0xE0 then some ⟨pos, b, 0, 0xA0, 0xBF, 1⟩
  else if n = 0xED then some ⟨pos, b, 0xD, 0x80, 0x9F, 1⟩
  else if 0xE1 ≤ n ∧ n ≤ 0xEF then some ⟨pos, b, n - 0xE0, 0x80, 0xBF, 1⟩
  else if n = 0xF0 then some ⟨pos, b, 0, 0x90, 0xBF, 2⟩
  else if 0xF1 ≤ n ∧ n ≤ 0xF3 then some ⟨pos, b, n - 0xF0, 0x80, 0xBF, 2⟩
  else if n = 0xF4 then some ⟨pos, b, 4, 0x80, 0x8F, 2⟩
  else none

/-- Decodes octets from position `pos` on, maybe within a sequence. -/
def decodeFrom (pos : Nat) (pending : Option Pending) : List UInt8 → Except Malformed (List Char)
  | [] =>
    match pending with
    | none => .ok []
    | some p => .error ⟨.utf8, p.start, pos - 1, p.lead, .unexpectedEnd⟩
  | b :: bs =>
    match pending with
    | none =>
      if b.toNat < 0x80 then (decodeFrom (pos + 1) none bs).map (Char.ofNat b.toNat :: ·)
      else match Pending.ofLead? pos b with
        | none => .error ⟨.utf8, pos, pos, b, .invalidStart⟩
        | some p => decodeFrom (pos + 1) (some p) bs
    | some p =>
      if p.low ≤ b.toNat ∧ b.toNat ≤ p.high then
        let value := p.value * 64 + (b.toNat - 0x80)
        match p.more with
        | 0 => (decodeFrom (pos + 1) none bs).map (Char.ofNat value :: ·)
        | more + 1 =>
          decodeFrom (pos + 1) (some { p with value, low := 0x80, high := 0xBF, more }) bs
      else .error ⟨.utf8, p.start, pos - 1, p.lead, .invalidContinuation⟩

/-- Decodes UTF-8. -/
def decode (octets : List UInt8) : Except Malformed (List Char) :=
  decodeFrom 0 none octets

/-- An octet that continues a sequence and carries the low six bits of `n`. -/
def continuation (n : Nat) : UInt8 :=
  UInt8.ofNat (0x80 + n % 64)

/-- The octets of a character. -/
def encodeChar (c : Char) : List UInt8 :=
  let n := c.toNat
  if n < 0x80 then [UInt8.ofNat n]
  else if n < 0x800 then [UInt8.ofNat (0xC0 + n / 64), continuation n]
  else if n < 0x10000 then
    [UInt8.ofNat (0xE0 + n / 4096), continuation (n / 64), continuation n]
  else
    [UInt8.ofNat (0xF0 + n / 262144), continuation (n / 4096), continuation (n / 64),
      continuation n]

/-- Encodes UTF-8. -/
def encode (cs : List Char) : List UInt8 :=
  cs.flatMap encodeChar

/-- The byte order mark in UTF-8. -/
def mark : List UInt8 :=
  [0xEF, 0xBB, 0xBF]

end WordMachine.Encoding.Utf8
