import WordMachine.Text.Blank

/-!
# Words

A program text is a row of words with blanks between them. There are four kinds of words.

* A comment starts with ※ and runs through the next ※.
* A literal starts with 「 and runs through the next 」. A comment or a literal that is not closed
  runs to the end of the text; both may hold blanks.
* A declaration is a は at the start of a word. It is a word of its own, and its text is とは if the
  character before it is と.
* A plain word is any other run of characters that are not blank. It may well hold the marks above
  after its first character.

`lexeme` takes one word off a text that starts with one, and `scan` gives all words of a text with
their positions, which count characters.
-/

namespace WordMachine

/-- The kind of a word. -/
inductive Word.Kind where
  | comment
  | literal
  | declaration
  | plain
deriving DecidableEq, Repr

/-- A word of a text and where it starts. -/
structure Word where
  text : String
  position : Nat
  kind : Word.Kind
deriving DecidableEq, Repr

namespace Word

open Text

/-- Opens and closes a comment. -/
def commentMark : Char := '※'

/-- Opens a literal. -/
def literalOpen : Char := '「'

/-- Closes a literal. -/
def literalClose : Char := '」'

/-- Declares. -/
def declarationMark : Char := 'は'

/-! ## One word -/

/-- Cuts a text after the first `close`, or at its end if there is none. -/
def cutAfter (close : Char) : List Char → List Char × List Char
  | [] => ([], [])
  | c :: cs =>
    if c = close then ([c], cs)
    else (c :: (cutAfter close cs).1, (cutAfter close cs).2)

theorem cutAfter_append (close : Char) (cs : List Char) :
    (cutAfter close cs).1 ++ (cutAfter close cs).2 = cs := by
  induction cs with
  | nil => rfl
  | cons c cs ih =>
    rw [cutAfter]
    split
    · rfl
    · simp [ih]

/-- A word as it stands in a text: its kind, its characters, and the text behind it. -/
structure Lexeme where
  kind : Word.Kind
  span : List Char
  rest : List Char
deriving DecidableEq, Repr

/-- The word at the start of `c :: cs`, where `c` is not blank. -/
def lexeme (c : Char) (cs : List Char) : Lexeme :=
  if c = commentMark then ⟨.comment, c :: (cutAfter commentMark cs).1, (cutAfter commentMark cs).2⟩
  else if c = literalOpen then
    ⟨.literal, c :: (cutAfter literalClose cs).1, (cutAfter literalClose cs).2⟩
  else if c = declarationMark then ⟨.declaration, [c], cs⟩
  else ⟨.plain, c :: cs.takeWhile (!isBlank ·), cs.dropWhile (!isBlank ·)⟩

/-- Nothing is lost between a word and what follows it. -/
theorem lexeme_append (c : Char) (cs : List Char) :
    (lexeme c cs).span ++ (lexeme c cs).rest = c :: cs := by
  unfold lexeme
  split
  · simp [cutAfter_append]
  · split
    · simp [cutAfter_append]
    · split
      · rfl
      · simp

/-- A word starts with the character it was found at. -/
theorem head?_span_lexeme (c : Char) (cs : List Char) :
    (lexeme c cs).span.head? = some c := by
  unfold lexeme
  split
  · rfl
  · split
    · rfl
    · split <;> rfl

theorem span_lexeme_ne_nil (c : Char) (cs : List Char) : (lexeme c cs).span ≠ [] := by
  intro h
  simpa [h] using head?_span_lexeme c cs

theorem length_rest_lexeme (c : Char) (cs : List Char) :
    (lexeme c cs).rest.length < (c :: cs).length := by
  rw [← lexeme_append c cs, List.length_append]
  have := List.length_pos_iff.2 (span_lexeme_ne_nil c cs)
  omega

/-- The text that a word shows when the character `before` it is known. -/
def Lexeme.shown (before : Option Char) (l : Lexeme) : String :=
  if l.kind = .declaration ∧ before = some aliasParticle then
    String.ofList [aliasParticle, declarationMark]
  else String.ofList l.span

/-! ## All words -/

/-- The words of the text `cs`, which stands at position `pos` and behind the character `before`. -/
def scanFrom (before : Option Char) (pos : Nat) (cs : List Char) : List Word :=
  match cs with
  | [] => []
  | c :: cs =>
    if isBlank c then scanFrom (some c) (pos + 1) cs
    else
      let l := lexeme c cs
      ⟨l.shown before, pos, l.kind⟩ :: scanFrom l.span.getLast? (pos + l.span.length) l.rest
termination_by cs.length
decreasing_by
  · simp
  · exact length_rest_lexeme c cs

@[simp]
theorem scanFrom_nil (before : Option Char) (pos : Nat) : scanFrom before pos [] = [] := by
  rw [scanFrom]

theorem scanFrom_cons_of_isBlank {c : Char} (h : isBlank c = true) (before : Option Char)
    (pos : Nat) (cs : List Char) :
    scanFrom before pos (c :: cs) = scanFrom (some c) (pos + 1) cs := by
  rw [scanFrom, if_pos h]

theorem scanFrom_cons_of_not_isBlank {c : Char} (h : isBlank c = false) (before : Option Char)
    (pos : Nat) (cs : List Char) :
    scanFrom before pos (c :: cs) =
      ⟨(lexeme c cs).shown before, pos, (lexeme c cs).kind⟩ ::
        scanFrom (lexeme c cs).span.getLast? (pos + (lexeme c cs).span.length)
          (lexeme c cs).rest := by
  rw [scanFrom, if_neg (by simp [h])]

/-- The words of a text. -/
def scan (text : String) : List Word :=
  scanFrom none 0 text.toList

end Word

end WordMachine
