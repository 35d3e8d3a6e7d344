/-!
# Line ends

Text comes with three line ends: a line feed, a carriage return, and the two of them in a row.
`foldNewlines` makes each of them one line feed, and `lines` cuts a text into its lines. A last line
needs no line end, and a text that ends in a line end has no empty line after it.
-/

namespace WordMachine.Text

/-- Makes every line end a single line feed. -/
def foldNewlines : List Char → List Char
  | [] => []
  | '\x0d' :: '\n' :: cs => '\n' :: foldNewlines cs
  | c :: cs => (if c = '\x0d' then '\n' else c) :: foldNewlines cs

/-- The lines of a text whose line ends are line feeds. -/
def splitLines : List Char → List (List Char)
  | [] => []
  | c :: cs =>
    if c = '\n' then [] :: splitLines cs
    else match splitLines cs with
      | [] => [[c]]
      | l :: ls => (c :: l) :: ls

/-- The lines of a text, whatever its line ends are. -/
def lines (text : String) : List String :=
  (splitLines (foldNewlines text.toList)).map String.ofList

end WordMachine.Text
