import WordMachine.Text.Ranges

/-!
# Blanks

`isSpace` is the white space of running text: the control characters that move the cursor, the
information separators, and every space of the Unicode standard (version 14) including the
full-width one. `isBlank` adds the four marks that only ever separate words of a program: the
particles を and と, the comma 、 and the full stop 。.

Zero-width characters (U+200B, U+2060, U+FEFF) and the Mongolian vowel separator (U+180E) are not
white space.
-/

namespace WordMachine.Text

/-- The code points of white space. -/
def spaceRanges : List CodeRange :=
  [(0x09, 0x0D), (0x1C, 0x20), (0x85, 0x85), (0xA0, 0xA0), (0x1680, 0x1680), (0x2000, 0x200A),
   (0x2028, 0x2029), (0x202F, 0x202F), (0x205F, 0x205F), (0x3000, 0x3000)]

/-- Whether `c` is white space. -/
def isSpace (c : Char) : Bool :=
  inRanges spaceRanges c

/-- The particle と. It separates words, and right before a lone は it makes that word とは. -/
def aliasParticle : Char := 'と'

/-- Whether `c` is one of the marks を, と, 、 and 。. -/
def isSeparator (c : Char) : Bool :=
  c == 'を' || c == aliasParticle || c == '、' || c == '。'

/-- Whether `c` only separates words. -/
def isBlank (c : Char) : Bool :=
  isSpace c || isSeparator c

theorem isBlank_newline : isBlank '\n' = true := by decide

theorem isBlank_aliasParticle : isBlank aliasParticle = true := by decide

/-- Removes white space from both ends. -/
def strip (cs : List Char) : List Char :=
  ((cs.dropWhile isSpace).reverse.dropWhile isSpace).reverse

end WordMachine.Text
