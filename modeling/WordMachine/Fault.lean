import WordMachine.Text.Quoted

/-!
# Faults

A fault is a failure that is none of the machine's own errors: a numeral that is no numeral or too
long to convert, a path or an encoding name that cannot be one, an encoding or a program text that
was never named, a stream without its byte order mark, a position outside a text or beyond all
texts. The console and the command line do not answer a fault, it ends
them.
-/

namespace WordMachine

/-- The most digits that a conversion between integers and decimal text takes. -/
def digitLimit : Nat := 4300

/-- A failure that no part of the program answers. -/
inductive Fault where
  /-- An integer has more digits than can be written. -/
  | integerTooLong
  /-- A numeral has `digits` digits, more than can be read. -/
  | numeralTooLong (digits : Nat)
  /-- The text is no numeral. -/
  | notANumeral (text : String)
  /-- A path holds the character U+0000. -/
  | nullInPath
  /-- An encoding name holds the character U+0000. -/
  | nullInEncoding
  /-- No encoding has this name. -/
  | unknownEncoding (name : String)
  /-- A file is to be read and no encoding is named. -/
  | unnamedFileEncoding
  /-- Standard input is to be read and no encoding is named. -/
  | unnamedInputEncoding
  /-- A program text is to be run and none is given. -/
  | missingProgramText
  /-- A stream that has to start with a byte order mark does not. -/
  | missingByteOrderMark
  /-- A position lies beyond the end of a text. -/
  | indexOutOfRange
  /-- The position of a single character fits no signed word of 64 bits. -/
  | indexTooLarge
  /-- The position to read from fits no signed word of 64 bits. -/
  | positionTooLarge
deriving DecidableEq, Repr

namespace Fault

private def limitText : String :=
  "Exceeds the limit (4300 digits) for integer string conversion"

private def limitAdvice : String :=
  "; use sys.set_int_max_str_digits() to increase the limit"

/-- The text of a fault. A text that is no numeral is quoted, and the quotation is cut off after
two hundred characters. -/
def message : Fault → String
  | integerTooLong => limitText ++ limitAdvice
  | numeralTooLong digits => limitText ++ ": value has " ++ digits.repr ++ " digits" ++ limitAdvice
  | notANumeral text =>
    "invalid literal for int() with base 10: " ++
      String.ofList ((Text.quoted text).toList.take 200)
  | nullInPath => "embedded null byte"
  | nullInEncoding => "embedded null character"
  | unknownEncoding name => "unknown encoding: " ++ name
  | unnamedFileEncoding => "open() argument 'encoding' must be str or None, not list"
  | unnamedInputEncoding => "TextIOWrapper() argument 'encoding' must be str or None, not list"
  | missingProgramText => "expected string or bytes-like object, got 'list'"
  | missingByteOrderMark => "UTF-16 stream does not start with BOM"
  | indexOutOfRange => "string index out of range"
  | indexTooLarge => "cannot fit 'int' into an index-sized integer"
  | positionTooLarge => "Python int too large to convert to C ssize_t"

end Fault

end WordMachine
