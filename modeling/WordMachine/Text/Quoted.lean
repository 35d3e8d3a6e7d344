import WordMachine.Text.Printable

/-!
# Quoted text

Messages show a text in quotation marks. The mark is a single quote, or a double quote if the text
holds a single quote and no double one. The mark in use and the backslash are escaped by a
backslash, line breaks and tabs have letters of their own, and any other character that is not
printable is written by its code point in lower-case hexadecimal: two, four or eight digits.
-/

namespace WordMachine.Text

/-- The hexadecimal digits of `n`, filled up with zeros to `width`. -/
def hexPadded (width n : Nat) : List Char :=
  let digits := Nat.toDigits 16 n
  List.replicate (width - digits.length) '0' ++ digits

/-- An unprintable character by its code point. -/
def codeEscape (c : Char) : List Char :=
  if c.toNat < 0x100 then '\\' :: 'x' :: hexPadded 2 c.toNat
  else if c.toNat < 0x10000 then '\\' :: 'u' :: hexPadded 4 c.toNat
  else '\\' :: 'U' :: hexPadded 8 c.toNat

/-- One character of a text between the quotation marks `mark`. -/
def quotedChar (mark c : Char) : List Char :=
  if c = mark ∨ c = '\\' then ['\\', c]
  else if c = '\n' then ['\\', 'n']
  else if c = '\x0d' then ['\\', 'r']
  else if c = '\t' then ['\\', 't']
  else if isPrintable c then [c]
  else codeEscape c

/-- The quotation mark that a text takes. -/
def quotationMark (cs : List Char) : Char :=
  if cs.contains '\x27' && !cs.contains '\x22' then '\x22' else '\x27'

/-- A text in quotation marks, as messages show it. -/
def quoted (text : String) : String :=
  let cs := text.toList
  let mark := quotationMark cs
  String.ofList (mark :: cs.flatMap (quotedChar mark) ++ [mark])

end WordMachine.Text
