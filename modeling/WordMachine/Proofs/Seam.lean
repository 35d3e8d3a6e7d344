import Mathlib.Tactic.Common
import WordMachine.Proofs.Lexeme
import WordMachine.Token

/-!
# Texts on both sides of a line break

A text is closed if its last word is not a comment or a literal that still waits for its closing mark.
The words of a closed text, a blank and a second text are the words of the first and those of the
second: a word of the first text ends where it did (`lexeme_append_of_closed`), and the words of the
second are only moved. Their texts do not change either, because the blank is not と
(`map_text_scanFrom`).

An unclosed comment or literal is always the last word, since it takes all that is left
(`rest_of_isUnclosed`); that is why only the last word matters.
-/

namespace WordMachine

open Text

namespace Word

/-- Whether a word of this kind and these characters still waits for its closing mark. -/
def isUnclosed (kind : Kind) (span : List Char) : Bool :=
  match kind with
  | .comment => span.length < 2 || span.getLast? != some commentMark
  | .literal => span.getLast? != some literalClose
  | .declaration => false
  | .plain => false

/-- Whether the last of some words is closed; where there is none, nothing is open. -/
def lastClosed (ws : List Word) : Bool :=
  ws.getLast?.all fun w => !isUnclosed w.kind w.text.toList

/-- Whether the last word of a text is closed. -/
def isClosed (text : String) : Bool :=
  lastClosed (scan text)

/-! ## A word and what follows it -/

theorem isUnclosed_comment (cs : List Char) :
    isUnclosed .comment (commentMark :: (cutAfter commentMark cs).1) = true ↔
      commentMark ∉ cs := by
  have hlast := getLast?_cutAfter commentMark cs
  cases hcut : (cutAfter commentMark cs).1 with
  | nil =>
    rw [hcut] at hlast
    simpa [isUnclosed] using hlast
  | cons d ds =>
    rw [hcut] at hlast
    simp only [isUnclosed, Bool.or_eq_true, decide_eq_true_eq, bne_iff_ne, List.length_cons,
      List.getLast?_cons_cons, hlast, ne_eq]
    exact or_iff_right (by omega)

theorem isUnclosed_literal (cs : List Char) :
    isUnclosed .literal (literalOpen :: (cutAfter literalClose cs).1) = true ↔
      literalClose ∉ cs := by
  have hlast := getLast?_cutAfter literalClose cs
  cases hcut : (cutAfter literalClose cs).1 with
  | nil =>
    rw [hcut] at hlast
    simpa [isUnclosed, show literalOpen ≠ literalClose by decide] using hlast
  | cons d ds =>
    rw [hcut] at hlast
    simp [isUnclosed, ← hlast]

theorem rest_of_isUnclosed {c : Char} {cs : List Char}
    (h : isUnclosed (lexeme c cs).kind (lexeme c cs).span = true) : (lexeme c cs).rest = [] := by
  rcases lexeme_cases c with rfl | rfl | rfl | hc
  · rw [lexeme_comment] at h ⊢
    rw [cutAfter_of_not_mem ((isUnclosed_comment cs).mp h)]
  · rw [lexeme_literal] at h ⊢
    rw [cutAfter_of_not_mem ((isUnclosed_literal cs).mp h)]
  · rw [lexeme_declaration] at h
    cases h
  · rw [lexeme_plain hc] at h
    cases h

theorem lexeme_append_of_closed {c n : Char} {cs : List Char} (hn : isBlank n = true)
    (h : isUnclosed (lexeme c cs).kind (lexeme c cs).span = false) (more : List Char) :
    lexeme c (cs ++ n :: more) =
      { lexeme c cs with rest := (lexeme c cs).rest ++ n :: more } := by
  rcases lexeme_cases c with rfl | rfl | rfl | hc
  · have hmem : commentMark ∈ cs := by
      by_contra hmem
      rw [lexeme_comment, (isUnclosed_comment cs).mpr hmem] at h
      cases h
    simp only [lexeme_comment, cutAfter_append_of_mem hmem]
  · have hmem : literalClose ∈ cs := by
      by_contra hmem
      rw [lexeme_literal, (isUnclosed_literal cs).mpr hmem] at h
      cases h
    simp only [lexeme_literal, cutAfter_append_of_mem hmem]
  · simp only [lexeme_declaration]
  · simp only [lexeme_plain hc]
    have hstop : (!isBlank n) = false := by simp [hn]
    rw [(takeWhile_append_of_stop hstop cs more).1, (takeWhile_append_of_stop hstop cs more).2]

/-! ## All words -/

theorem lastClosed_cons (w : Word) (ws : List Word) :
    lastClosed (w :: ws) =
      if ws = [] then !isUnclosed w.kind w.text.toList else lastClosed ws := by
  cases ws with
  | nil => rfl
  | cons v vs => simp [lastClosed, List.getLast?_cons_cons]

theorem isUnclosed_shown (l : Lexeme) (before : Option Char) :
    isUnclosed l.kind (l.shown before).toList = isUnclosed l.kind l.span := by
  unfold Lexeme.shown
  split
  · next h => rw [h.1]; rfl
  · rw [String.toList_ofList]

/-- Behind a closed text and a blank, the words of what follows are found as if the scan began
there. -/
theorem scanFrom_append {n : Char} (hn : isBlank n = true) (more : List Char) (before : Option Char)
    (pos : Nat) (cs : List Char) (h : lastClosed (scanFrom before pos cs) = true) :
    scanFrom before pos (cs ++ n :: more) =
      scanFrom before pos cs ++ scanFrom (some n) (pos + cs.length + 1) more := by
  induction before, pos, cs using scan_induction with
  | nil before pos => simp [scanFrom_cons_of_isBlank hn]
  | blank before pos c cs hc ih =>
    rw [scanFrom_cons_of_isBlank hc] at h ⊢
    rw [List.cons_append, scanFrom_cons_of_isBlank hc, ih h, List.length_cons]
    congr 2
    omega
  | word before pos c cs hc ih =>
    rw [scanFrom_cons_of_not_isBlank hc] at h ⊢
    rw [lastClosed_cons] at h
    -- only the last word could be unclosed, and it is not
    have hclosed : isUnclosed (lexeme c cs).kind (lexeme c cs).span = false := by
      by_contra hopen
      have hopen : isUnclosed (lexeme c cs).kind (lexeme c cs).span = true := by simpa using hopen
      rw [rest_of_isUnclosed hopen, scanFrom_nil, if_pos rfl, isUnclosed_shown, hopen] at h
      cases h
    have hlater : lastClosed (scanFrom (lexeme c cs).span.getLast?
        (pos + (lexeme c cs).span.length) (lexeme c cs).rest) = true := by
      split at h
      · next hnil => rw [hnil]; rfl
      · exact h
    have hlen : (lexeme c cs).span.length + (lexeme c cs).rest.length = cs.length + 1 := by
      rw [← List.length_append, lexeme_append, List.length_cons]
    have hpos : pos + (lexeme c cs).span.length + (lexeme c cs).rest.length + 1 =
        pos + (cs.length + 1) + 1 := by omega
    rw [List.cons_append, scanFrom_cons_of_not_isBlank hc, lexeme_append_of_closed hn hclosed more,
      List.cons_append]
    dsimp only
    rw [ih hlater, List.length_cons, hpos]
    rfl

/-- What the words show depends neither on where the text stands nor on the character before it, as
long as that is と or not. -/
theorem map_text_scanFrom {before before' : Option Char} (pos pos' : Nat) (cs : List Char)
    (h : before = some aliasParticle ↔ before' = some aliasParticle) :
    (scanFrom before pos cs).map Word.text = (scanFrom before' pos' cs).map Word.text := by
  induction before, pos, cs using scan_induction generalizing before' pos' with
  | nil before pos => simp
  | blank before pos c cs hc ih =>
    rw [scanFrom_cons_of_isBlank hc, scanFrom_cons_of_isBlank hc]
    exact ih (pos' + 1) Iff.rfl
  | word before pos c cs hc ih =>
    have hshown : (lexeme c cs).shown before = (lexeme c cs).shown before' := by
      simp only [Lexeme.shown, h]
    rw [scanFrom_cons_of_not_isBlank hc, scanFrom_cons_of_not_isBlank hc, List.map_cons,
      List.map_cons]
    exact congrArg₂ List.cons hshown (ih _ Iff.rfl)

/-- A line break behind a closed text separates its words from those of the next. -/
theorem map_text_scan_append {a : String} (h : isClosed a = true) (b : String) :
    (scan (a ++ "\n" ++ b)).map Word.text = (scan a).map Word.text ++ (scan b).map Word.text := by
  have hchars : (a ++ "\n" ++ b).toList = a.toList ++ '\n' :: b.toList := by simp
  have hbefore : some '\n' = some aliasParticle ↔ none = some aliasParticle := by decide
  have hseam := scanFrom_append isBlank_newline b.toList none 0 a.toList h
  rw [scan, hchars, hseam, List.map_append, map_text_scanFrom _ 0 b.toList hbefore]
  rfl

end Word

end WordMachine
