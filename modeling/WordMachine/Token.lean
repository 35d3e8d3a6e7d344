import WordMachine.Value
import WordMachine.Word.Cursor

/-!
# Tokens

A token is what the machine runs: the text of a word, the kind of thing it is, and its payload. The
kind depends on the text alone, by the first rule that applies: a numeral, a literal, a comment, a
declaration, and otherwise an identifier. The tokens of a text come all at once, or one at a time from a
cursor.
-/

namespace WordMachine

/-- The kind of a token. -/
inductive Token.Kind where
  | number
  | literal
  | comment
  | declaration
  | identifier
deriving DecidableEq, Repr

/-- A word that the machine can run. Classified words have an integer payload for numbers, the text
between the brackets for literals, and otherwise the word itself; but any token can be run. -/
structure Token where
  kind : Token.Kind
  payload : Value
  raw : String
deriving DecidableEq, Repr

namespace Token

open Word

/-- The name that a token has in the dictionary and among declarers: what was written for a number,
and otherwise the payload. -/
def name (t : Token) : Value :=
  if t.kind = .number then .text t.raw else t.payload

/-- Whether a token puts its payload on the stack. -/
def isConstant (t : Token) : Bool :=
  t.kind = .literal || t.kind = .number

/-- The names that close a unit. -/
def closerNames : List Value :=
  [.text "です", .text "である"]

/-- Whether a token closes a unit: です or である, but neither as a literal nor as a number. -/
def isCloser (t : Token) : Bool :=
  !t.isConstant && closerNames.contains t.name

/-- The identifier with a given name. -/
def identifier (name : String) : Token :=
  ⟨.identifier, .text name, name⟩

/-! ## Classification -/

/-- Whether `c` is an ASCII digit or a full-width one. -/
def isNumeralDigit (c : Char) : Bool :=
  (0x30 ≤ c.toNat && c.toNat ≤ 0x39) || (0xFF10 ≤ c.toNat && c.toNat ≤ 0xFF19)

/-- One digit or more, and nothing else. -/
def isDigitRun (cs : List Char) : Bool :=
  !cs.isEmpty && cs.all isNumeralDigit

/-- A digit run, after an optional minus sign. -/
def isNumeral : List Char → Bool
  | [] => false
  | c :: cs => if c = '-' then isDigitRun cs else isDigitRun (c :: cs)

/-- What stands between the brackets of a literal; `cs` is all after the opening one. The closing
one may be missing. -/
def literalBody (cs : List Char) : List Char :=
  if cs.getLast? = some literalClose then cs.dropLast else cs

/-- Classifies the text of a word. Only a numeral that is too long fails. -/
def classify (raw : String) : Except Fault Token :=
  let cs := raw.toList
  if isNumeral cs then
    (Numeral.read raw).map fun n => ⟨.number, .int n, raw⟩
  else if cs.head? = some literalOpen then
    .ok ⟨.literal, .text (String.ofList (literalBody cs.tail)), raw⟩
  else if cs.head? = some commentMark then .ok ⟨.comment, .text raw, raw⟩
  else if cs.getLast? = some declarationMark then .ok ⟨.declaration, .text raw, raw⟩
  else .ok ⟨.identifier, .text raw, raw⟩

/-- The tokens of a text, if all its words can be classified. -/
def tokenize (text : String) : Except Fault (List Token) :=
  (scan text).mapM fun w => classify w.text

end Token

/-! ## One token at a time -/

namespace Cursor

/-- Takes the next word and classifies it. The position is behind the word also if that fails. -/
def nextToken (c : Cursor) : Except Fault (Option Token) × Cursor :=
  match c.next? with
  | .error f => (.error f, c)
  | .ok (none, c') => (.ok none, c')
  | .ok (some w, c') => ((Token.classify w.text).map some, c')

theorem length_ahead_of_nextToken {c c' : Cursor} {t : Token}
    (h : c.nextToken = (.ok (some t), c')) : c'.ahead.length < c.ahead.length := by
  unfold nextToken at h
  split at h
  · cases h
  · cases h
  · rename_i w c'' hnext
    obtain rfl : c'' = c' := congrArg Prod.snd h
    exact length_ahead_of_next? hnext

/-- Takes tokens one by one until there is none left. -/
def tokens (c : Cursor) : Except Fault (List Token) :=
  match _h : c.nextToken with
  | (.error f, _) => .error f
  | (.ok none, _) => .ok []
  | (.ok (some t), c') => (tokens c').map (t :: ·)
termination_by c.ahead.length
decreasing_by exact length_ahead_of_nextToken _h

theorem tokens_eq (c : Cursor) :
    c.tokens =
      match c.nextToken with
      | (.error f, _) => .error f
      | (.ok none, _) => .ok []
      | (.ok (some t), c') => c'.tokens.map (t :: ·) := by
  rw [tokens]
  split
  · rename_i h
    rw [h]
  · rename_i h
    rw [h]
  · rename_i h
    rw [h]

end Cursor

end WordMachine
