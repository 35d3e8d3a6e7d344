import WordMachine.Fault
import WordMachine.Word

/-!
# Reading words one at a time

A `Cursor` is a text and a position in it. Its operations look at the text from the position on and
move the position behind what they took. The position may be set to any integer, also before the
start or beyond the end: the text is then read from the nearest place inside, and an operation that
finds nothing leaves the position alone. Only a position outside the text that fits no signed word of 64
bits cannot be read from.
-/

namespace WordMachine

/-- A text and a position in it. -/
structure Cursor where
  text : List Char
  pos : Int
deriving DecidableEq, Repr

namespace Cursor

open Text Word

/-- A cursor at the start of a text. -/
def start (text : String) : Cursor :=
  ⟨text.toList, 0⟩

/-- Whether the position is at or beyond the end. -/
def finished (c : Cursor) : Bool :=
  c.text.length ≤ c.pos

/-- Whether an integer fits a signed word of 64 bits. -/
def fitsWord (n : Int) : Bool :=
  -0x8000000000000000 ≤ n && n < 0x8000000000000000

/-- The place in the text that is nearest to the position. -/
def place (c : Cursor) : Nat :=
  min c.pos.toNat c.text.length

/-- The text from the position on. -/
def ahead (c : Cursor) : List Char :=
  c.text.drop c.place

/-- Whether the position lies in the text, or right behind it. -/
def inside (c : Cursor) : Bool :=
  0 ≤ c.pos && c.pos ≤ c.text.length

/-- The text from the position on, if the position can be read from. -/
def look (c : Cursor) : Except Fault (List Char) :=
  if c.inside || fitsWord c.pos then .ok c.ahead else .error .positionTooLarge

theorem look_of_inside {c : Cursor} (h : c.inside = true) : c.look = .ok c.ahead := by
  rw [look, if_pos (by simp [h])]

theorem look_of_fitsWord {c : Cursor} (h : fitsWord c.pos = true) : c.look = .ok c.ahead := by
  rw [look, if_pos (by simp [h])]

theorem look_of_not_fitsWord {c : Cursor} (hout : c.inside = false) (h : fitsWord c.pos = false) :
    c.look = .error .positionTooLarge := by
  rw [look, if_neg (by simp [hout, h])]

theorem look_cases (c : Cursor) : c.look = .ok c.ahead ∨ c.look = .error .positionTooLarge := by
  unfold look
  split
  · exact .inl rfl
  · exact .inr rfl

/-- The character before the position. -/
def before (c : Cursor) : Option Char :=
  (c.text.take c.place).getLast?

/-- The cursor behind the next `n` characters. -/
def advance (c : Cursor) (n : Nat) : Cursor :=
  { c with pos := c.place + n }

section Advance

variable {c : Cursor} {span rest : List Char} (h : c.ahead = span ++ rest)
include h

theorem place_advance : (c.advance span.length).place = c.place + span.length := by
  have hlength := congrArg List.length h
  simp only [ahead, List.length_drop, List.length_append] at hlength
  have hplace : c.place ≤ c.text.length := Nat.min_le_right _ _
  show min ((c.place + span.length : Nat) : Int).toNat c.text.length = _
  rw [Int.toNat_natCast]
  omega

theorem inside_advance : (c.advance span.length).inside = true := by
  have hlength := congrArg List.length h
  simp only [ahead, List.length_drop, List.length_append] at hlength
  have hplace : c.place ≤ c.text.length := Nat.min_le_right _ _
  have hzero : (0 : Int) ≤ (c.place + span.length : Nat) := Int.natCast_nonneg _
  have hend : ((c.place + span.length : Nat) : Int) ≤ c.text.length := by omega
  exact Bool.and_eq_true_iff.mpr ⟨decide_eq_true hzero, decide_eq_true hend⟩

theorem ahead_advance : (c.advance span.length).ahead = rest := by
  rw [ahead, place_advance h]
  show c.text.drop (c.place + span.length) = rest
  rw [← List.drop_drop, show c.text.drop c.place = c.ahead from rfl, h, List.drop_left]

/-- The character before the new position is the last one of what was taken. -/
theorem before_advance : (c.advance span.length).before = span.getLast?.or c.before := by
  have htake : c.text.take (c.place + span.length) = c.text.take c.place ++ span := by
    rw [List.take_add, show c.text.drop c.place = c.ahead from rfl, h, List.take_left]
  rw [before, place_advance h]
  show (c.text.take (c.place + span.length)).getLast? = _
  rw [htake, List.getLast?_append, before]

end Advance

/-- Takes the characters `span`, which stand ahead. -/
def take (c : Cursor) (span : List Char) : String × Cursor :=
  (String.ofList span, c.advance span.length)

/-- Takes all blanks at the position, maybe none. -/
def blanks (c : Cursor) : Except Fault (String × Cursor) := do
  return c.take ((← c.look).takeWhile isBlank)

/-- Takes a text from `opening` through `closing` if one starts at the position. -/
def delimited? (opening closing : Char) (c : Cursor) : Except Fault (Option (String × Cursor)) := do
  match ← c.look with
  | [] => return none
  | d :: ds =>
    return if d = opening then some (c.take (d :: (cutAfter closing ds).1)) else none

/-- Takes a comment. -/
def comment? (c : Cursor) : Except Fault (Option (String × Cursor)) :=
  c.delimited? commentMark commentMark

/-- Takes a literal. -/
def literal? (c : Cursor) : Except Fault (Option (String × Cursor)) :=
  c.delimited? literalOpen literalClose

/-- Takes a run of characters that are not blank. -/
def run? (c : Cursor) : Except Fault (Option (String × Cursor)) := do
  match (← c.look).takeWhile (!isBlank ·) with
  | [] => return none
  | d :: ds => return some (c.take (d :: ds))

/-- Moves the position one character on, whatever stands there, and gives the declaration that a は
at that place is: とは if the character before it is と. There has to be a character before it,
unless the place is the start of the text. -/
def declaration (c : Cursor) : Except Fault String × Cursor :=
  let moved : Cursor := { c with pos := c.pos + 1 }
  let plain := String.ofList [declarationMark]
  let index := moved.pos - 2
  if index < 0 then (.ok plain, moved)
  else match c.text[index.toNat]? with
    | none => (.error (if fitsWord index then .indexOutOfRange else .indexTooLarge), moved)
    | some d =>
      (.ok (if d = aliasParticle then String.ofList [aliasParticle, declarationMark] else plain),
        moved)

/-- Takes blanks and the word behind them. -/
def next? (c : Cursor) : Except Fault (Option Word × Cursor) := do
  let (_, c) ← c.blanks
  match c.ahead with
  | [] => return (none, c)
  | d :: ds =>
    let l := lexeme d ds
    return (some ⟨l.shown c.before, c.place, l.kind⟩, c.advance l.span.length)

/-- The cursor behind the blanks at the position. -/
def behindBlanks (c : Cursor) : Cursor :=
  c.advance (c.ahead.takeWhile isBlank).length

theorem ahead_behindBlanks (c : Cursor) : c.behindBlanks.ahead = c.ahead.dropWhile isBlank :=
  ahead_advance List.takeWhile_append_dropWhile.symm

/-- Where blanks alone are ahead, no word is taken. -/
theorem next?_of_nil {c : Cursor} (hlook : c.look = .ok c.ahead)
    (h : c.ahead.dropWhile isBlank = []) : c.next? = .ok (none, c.behindBlanks) := by
  rw [← ahead_behindBlanks] at h
  simp only [next?, blanks, hlook, bind, Except.bind, pure, Except.pure, take]
  rw [show c.advance (c.ahead.takeWhile isBlank).length = c.behindBlanks from rfl, h]

/-- Behind blanks the next word is taken. -/
theorem next?_of_cons {c : Cursor} {d : Char} {ds : List Char} (hlook : c.look = .ok c.ahead)
    (h : c.ahead.dropWhile isBlank = d :: ds) :
    c.next? = .ok (some ⟨(lexeme d ds).shown c.behindBlanks.before, c.behindBlanks.place,
      (lexeme d ds).kind⟩, c.behindBlanks.advance (lexeme d ds).span.length) := by
  rw [← ahead_behindBlanks] at h
  simp only [next?, blanks, hlook, bind, Except.bind, pure, Except.pure, take]
  rw [show c.advance (c.ahead.takeWhile isBlank).length = c.behindBlanks from rfl, h]

/-- A cursor that cannot be read from gives its fault. -/
theorem next?_of_error {c : Cursor} {f : Fault} (h : c.look = .error f) : c.next? = .error f := by
  simp only [next?, blanks, h, bind, Except.bind]

/-- A word that is taken leaves less ahead. -/
theorem length_ahead_of_next? {c c' : Cursor} {w : Word} (h : c.next? = .ok (some w, c')) :
    c'.ahead.length < c.ahead.length := by
  rcases look_cases c with hlook | hlook
  · cases hcs : c.ahead.dropWhile isBlank with
    | nil =>
      rw [next?_of_nil hlook hcs] at h
      cases h
    | cons d ds =>
      rw [next?_of_cons hlook hcs] at h
      cases h
      have hspan : c.behindBlanks.ahead = (lexeme d ds).span ++ (lexeme d ds).rest := by
        rw [ahead_behindBlanks, hcs, lexeme_append]
      have hrest := length_rest_lexeme d ds
      have hskipped := (List.dropWhile_suffix isBlank (l := c.ahead)).length_le
      rw [ahead_advance hspan]
      rw [hcs] at hskipped
      omega
  · rw [next?_of_error hlook] at h
    cases h

/-- Takes all words that are left. -/
def words (c : Cursor) : Except Fault (List Word × Cursor) := do
  return (scanFrom c.before c.place (← c.look), { c with pos := c.text.length })

end Cursor

end WordMachine
