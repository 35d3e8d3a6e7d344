/-!
# Encodings of source text

The encodings that sources may be stored in, and their names. A name is matched without regard to
case, and any run of characters other than letters, digits and points counts as one underscore. Only
the name that stands for the encoding of the system is matched as it is.

Here are the encodings of Unicode as a whole and of its first 128 and 256 characters. All others rest on code
tables of their own (shift_jis and its like) and are left out: their names name no encoding here, although a
host may well know them.
-/

namespace WordMachine

/-- How a source is stored as octets. -/
inductive Encoding where
  | utf8
  /-- UTF-8 with a byte order mark that is no part of the text. -/
  | utf8Signed
  | ascii
  | latin1
  /-- UTF-16 whose byte order the byte order mark tells. -/
  | utf16
  | utf16le
  | utf16be
deriving DecidableEq, Repr

namespace Encoding

/-- Whether a character of a name is kept. -/
def isNameChar (c : Char) : Bool :=
  c.isAlphanum || c == '.'

/-- Writes a name in lower case and each run of other characters between two kept ones as one
underscore; `gap` says that such a run has just passed. -/
def squeeze (gap : Bool) : List Char → List Char
  | [] => []
  | c :: cs =>
    if isNameChar c then
      if gap then '_' :: c.toLower :: squeeze false cs else c.toLower :: squeeze false cs
    else squeeze true cs

/-- The form in which names are compared. -/
def normalName (name : String) : String :=
  String.ofList (squeeze false (name.toList.dropWhile (!isNameChar ·)))

/-- The name of each encoding in its normal form. -/
def properNames : List (String × Encoding) :=
  [("utf_8", utf8), ("utf_8_sig", utf8Signed), ("ascii", ascii), ("latin_1", latin1),
   ("utf_16", utf16), ("utf_16_le", utf16le), ("utf_16_be", utf16be)]

/-- The other names of the encodings, in normal form. -/
def aliases : List (String × Encoding) :=
  [("u8", utf8), ("utf", utf8), ("utf8", utf8), ("utf8_ucs2", utf8), ("utf8_ucs4", utf8),
   ("cp65001", utf8),
   ("646", ascii), ("ansi_x3.4_1968", ascii), ("ansi_x3_4_1968", ascii),
   ("ansi_x3.4_1986", ascii), ("cp367", ascii), ("csascii", ascii), ("ibm367", ascii),
   ("iso646_us", ascii), ("iso_646.irv_1991", ascii), ("iso_ir_6", ascii), ("us", ascii),
   ("us_ascii", ascii),
   ("8859", latin1), ("cp819", latin1), ("csisolatin1", latin1), ("ibm819", latin1),
   ("iso8859", latin1), ("iso8859_1", latin1), ("iso_8859_1", latin1),
   ("iso_8859_1_1987", latin1), ("iso_ir_100", latin1), ("l1", latin1), ("latin", latin1),
   ("latin1", latin1),
   ("u16", utf16), ("utf16", utf16),
   ("unicodelittleunmarked", utf16le), ("utf_16le", utf16le),
   ("unicodebigunmarked", utf16be), ("utf_16be", utf16be)]

/-- The name that stands for the encoding of the system. -/
def systemName : String := "locale"

/-- The encoding of the system. -/
def system : Encoding := utf8

/-- The encoding with a given name. In an alias a point may stand for an underscore. -/
def ofName? (name : String) : Option Encoding :=
  if name = systemName then some system
  else
    let key := normalName name
    let unpointed := key.map fun c => if c = '.' then '_' else c
    (properNames.lookup key <|> aliases.lookup key) <|> aliases.lookup unpointed

end Encoding

end WordMachine
