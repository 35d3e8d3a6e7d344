import WordMachine.Fault
import WordMachine.Text.Blank
import WordMachine.Text.DecimalDigit

/-!
# Numerals

`Numeral.read` turns text into an integer and `Numeral.write` turns an integer into decimal text.

Reading is generous: white space around the numeral, one sign, decimal digits of any system (also
mixed), and single underscores between digits. Writing has one form: a minus sign for negative
integers and ASCII digits without leading zeros. Both refuse more than `digitLimit` digits; for
reading leading zeros count, the sign and underscores do not.
-/

namespace WordMachine.Numeral

open Text

/-- A full-width digit as the ASCII digit of the same value; any other character as it is. -/
def narrowDigit (c : Char) : Char :=
  if 0xFF10 ≤ c.toNat ∧ c.toNat ≤ 0xFF19 then Char.ofNat (c.toNat - 0xFEE0) else c

/-- White space that may stand around a numeral: all but the information separators. -/
def isPadding (c : Char) : Bool :=
  isSpace c && !(0x1C ≤ c.toNat && c.toNat ≤ 0x1F)

/-- What the body of a numeral is made of: digits, and underscores between them. -/
def isBodyChar (c : Char) : Bool :=
  isDecimalDigit c || c == '_'

/-- Whether the rest of a body, after a digit, has each underscore between two digits. -/
def groupedAfterDigit : List Char → Bool
  | [] => true
  | c :: cs =>
    if c = '_' then
      match cs with
      | [] => false
      | d :: ds => d != '_' && groupedAfterDigit ds
    else groupedAfterDigit cs

/-- Whether a body is not empty and has each underscore between two digits. -/
def grouped : List Char → Bool
  | [] => false
  | c :: cs => c != '_' && groupedAfterDigit cs

/-- The value of a list of digits, most significant first. -/
def digitsValue (ds : List Char) : Nat :=
  ds.foldl (fun n c => 10 * n + (digitValue? c).getD 0) 0

/-- Takes an optional sign off the front; the first part says whether it is a minus. -/
def splitSign : List Char → Bool × List Char
  | '-' :: cs => (true, cs)
  | '+' :: cs => (false, cs)
  | cs => (false, cs)

/-- The integer with the given sign and magnitude. -/
def signed (negative : Bool) (n : Nat) : Int :=
  if negative then -(n : Int) else n

/-- Reads characters whose full-width digits are narrowed. Of several faults in one text, a misplaced
underscore comes first, then the number of digits, then anything else. -/
def readNarrow (cs : List Char) : Except Fault Int :=
  let (negative, body) := splitSign (cs.dropWhile isPadding)
  let run := body.takeWhile isBodyChar
  let digits := run.filter (· != '_')
  if !grouped run then .error (.notANumeral (String.ofList cs))
  else if digitLimit < digits.length then .error (.numeralTooLong digits.length)
  else if !(body.dropWhile isBodyChar).all isPadding then .error (.notANumeral (String.ofList cs))
  else .ok (signed negative (digitsValue digits))

/-- Reads an integer. -/
def read (text : String) : Except Fault Int :=
  readNarrow (text.toList.map narrowDigit)

/-- The decimal digits of an integer, after a minus sign if it is negative. -/
def decimal (n : Int) : List Char :=
  if n < 0 then '-' :: Nat.toDigits 10 n.natAbs else Nat.toDigits 10 n.natAbs

/-- Writes an integer, if it has no more digits than the limit. -/
def write (n : Int) : Except Fault String :=
  if digitLimit < (Nat.toDigits 10 n.natAbs).length then .error .integerTooLong
  else .ok (String.ofList (decimal n))

end WordMachine.Numeral
