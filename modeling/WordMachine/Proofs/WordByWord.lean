import Mathlib.Data.List.TakeWhile
import WordMachine.Machine.Execute
import WordMachine.Proofs.Numerals
import WordMachine.Proofs.Outcome

/-!
# Texts word by word

A text is run word by word: each word is classified when its turn comes, and what came before it has run by
then. Its tokens can also be had beforehand, all at once or one by one from a cursor, and be run then. The
two ways part only at a word that cannot be classified. Running the text comes to that word, unless
something fails before it; asking for the tokens fails at once.

For the cursor, what is ahead of it is scanned to some words (`Cursor.wordsAhead`), and one step takes off
the first of them. So the tokens it gives are those of the text (`Cursor.tokens_start`).
-/

namespace WordMachine

open Text Word

/-! ## One word at a time -/

namespace Word

/-- Blanks in front of a text move it, and the last one of them is the character before it. -/
theorem scanFrom_blanks {bs : List Char} (h : ∀ b ∈ bs, isBlank b = true) (before : Option Char)
    (pos : Nat) (rest : List Char) :
    scanFrom before pos (bs ++ rest) =
      scanFrom (bs.getLast?.or before) (pos + bs.length) rest := by
  induction bs generalizing before pos with
  | nil => rfl
  | cons b bs ih =>
    have hbs := ih (fun d hd => h d (by simp [hd])) (some b) (pos + 1)
    rw [List.cons_append, scanFrom_cons_of_isBlank (h b (by simp)), hbs, List.length_cons,
      Nat.add_right_comm, Nat.add_assoc]
    cases hlast : bs.getLast? with
    | none => simp [List.getLast?_cons, hlast]
    | some d => simp [List.getLast?_cons, hlast]

end Word

namespace Cursor

/-- The words that are ahead. -/
def wordsAhead (c : Cursor) : List Word :=
  scanFrom c.before c.place c.ahead

theorem wordsAhead_start (text : String) : (start text).wordsAhead = scan text := by
  have hplace : (start text).place = 0 := by simp [start, place]
  rw [wordsAhead, before, ahead, hplace]
  rfl

theorem wordsAhead_behindBlanks (c : Cursor) : c.behindBlanks.wordsAhead = c.wordsAhead := by
  have hahead : c.ahead = c.ahead.takeWhile isBlank ++ c.ahead.dropWhile isBlank :=
    List.takeWhile_append_dropWhile.symm
  have hblanks : ∀ b ∈ c.ahead.takeWhile isBlank, isBlank b = true :=
    fun b hb => List.mem_takeWhile_imp hb
  calc scanFrom c.behindBlanks.before c.behindBlanks.place c.behindBlanks.ahead
      = scanFrom ((c.ahead.takeWhile isBlank).getLast?.or c.before)
          (c.place + (c.ahead.takeWhile isBlank).length) (c.ahead.dropWhile isBlank) := by
        rw [ahead_behindBlanks, behindBlanks, before_advance hahead, place_advance hahead]
    _ = scanFrom c.before c.place (c.ahead.takeWhile isBlank ++ c.ahead.dropWhile isBlank) :=
        (scanFrom_blanks hblanks _ _ _).symm
    _ = scanFrom c.before c.place c.ahead := by rw [← hahead]

section Next

variable {c : Cursor}

theorem wordsAhead_of_nil (h : c.ahead.dropWhile isBlank = []) : c.wordsAhead = [] := by
  rw [← wordsAhead_behindBlanks, wordsAhead, ahead_behindBlanks, h, scanFrom_nil]

theorem wordsAhead_of_cons {d : Char} {ds : List Char} (h : c.ahead.dropWhile isBlank = d :: ds) :
    c.wordsAhead =
      ⟨(lexeme d ds).shown c.behindBlanks.before, c.behindBlanks.place, (lexeme d ds).kind⟩ ::
        (c.behindBlanks.advance (lexeme d ds).span.length).wordsAhead := by
  have hd : isBlank d = false := by
    have hhead := List.head?_dropWhile_not isBlank c.ahead
    rw [h] at hhead
    simpa using hhead
  have hspan : c.behindBlanks.ahead = (lexeme d ds).span ++ (lexeme d ds).rest := by
    rw [ahead_behindBlanks, h, lexeme_append]
  -- a word has a last character, which stands before what follows it
  obtain ⟨last, hlast⟩ : ∃ last, (lexeme d ds).span.getLast? = some last :=
    Option.ne_none_iff_exists'.mp (by simpa using span_lexeme_ne_nil d ds)
  rw [← wordsAhead_behindBlanks, wordsAhead, ahead_behindBlanks, h,
    scanFrom_cons_of_not_isBlank hd, wordsAhead, before_advance hspan, place_advance hspan,
    ahead_advance hspan, hlast]
  rfl

end Next

/-- Inside the text, tokens taken one by one are those of the words ahead. -/
theorem tokens_of_inside {c : Cursor} (h : c.inside = true) :
    c.tokens = c.wordsAhead.mapM fun w => Token.classify w.text := by
  induction hn : c.ahead.length using Nat.strong_induction_on generalizing c with
  | _ n ih =>
    subst hn
    have hlook := look_of_inside h
    rw [tokens_eq, nextToken]
    cases hcs : c.ahead.dropWhile isBlank with
    | nil =>
      rw [wordsAhead_of_nil hcs, next?_of_nil hlook hcs]
      rfl
    | cons d ds =>
      have hspan : c.behindBlanks.ahead = (lexeme d ds).span ++ (lexeme d ds).rest := by
        rw [ahead_behindBlanks, hcs, lexeme_append]
      have hnext := next?_of_cons hlook hcs
      have hrest := ih _ (length_ahead_of_next? hnext) (inside_advance hspan) rfl
      rw [wordsAhead_of_cons hcs, hnext, List.mapM_cons]
      simp only
      cases Token.classify ((lexeme d ds).shown c.behindBlanks.before) with
      | error f => rfl
      | ok t =>
        simp only [Except.map, hrest]
        cases List.mapM (fun w : Word => Token.classify w.text)
          (c.behindBlanks.advance (lexeme d ds).span.length).wordsAhead with
        | error f => rfl
        | ok ts => rfl

/-- Tokens taken one by one from the start of a text are the tokens of the text. -/
theorem tokens_start (text : String) : (start text).tokens = Token.tokenize text := by
  have hinside : (start text).inside = true := by simp [start, inside]
  rw [tokens_of_inside hinside, wordsAhead_start]
  rfl

end Cursor

/-! ## The first word that cannot be classified -/

namespace Token

/-- The first `k` words of a text are classified as the tokens `ts`, and the word behind them, which shows
`raw`, fails to be classified. -/
structure StopsAt (text : String) (k : Nat) (ts : List Token) (raw : String) (f : Fault) : Prop where
  before : ((scan text).take k).mapM (fun w => classify w.text) = .ok ts
  word : (scan text)[k]?.map Word.text = some raw
  fault : classify raw = .error f

theorem exists_mapM_take_of_error {ws : List Word} {f : Fault}
    (h : ws.mapM (fun w => classify w.text) = .error f) :
    ∃ k ts w, (ws.take k).mapM (fun w => classify w.text) = .ok ts ∧ ws[k]? = some w ∧
      classify w.text = .error f := by
  induction ws with
  | nil =>
    rw [List.mapM_nil] at h
    cases h
  | cons w ws ih =>
    rw [List.mapM_cons] at h
    cases hw : classify w.text with
    | error g =>
      rw [hw] at h
      cases h
      exact ⟨0, [], w, rfl, rfl, hw⟩
    | ok t =>
      cases hws : ws.mapM (fun w => classify w.text) with
      | ok us =>
        rw [hw, hws] at h
        cases h
      | error g =>
        rw [hw, hws] at h
        cases h
        obtain ⟨k, ts, v, hbefore, hv, hfault⟩ := ih hws
        refine ⟨k + 1, t :: ts, v, ?_, hv, hfault⟩
        rw [List.take_succ_cons, List.mapM_cons, hw, hbefore]
        rfl

theorem exists_stopsAt_of_error {text : String} {f : Fault} (h : tokenize text = .error f) :
    ∃ k ts raw, StopsAt text k ts raw f := by
  obtain ⟨k, ts, w, hbefore, hw, hfault⟩ := exists_mapM_take_of_error h
  exact ⟨k, ts, w.text, hbefore, by rw [hw]; rfl, hfault⟩

namespace StopsAt

variable {text raw : String} {k : Nat} {ts : List Token} {f : Fault} (h : StopsAt text k ts raw f)
include h

theorem scan_eq : ∃ w later, scan text = (scan text).take k ++ w :: later ∧ w.text = raw := by
  obtain ⟨w, hw, hraw⟩ := Option.map_eq_some_iff.mp h.word
  obtain ⟨hlt, rfl⟩ := List.getElem?_eq_some_iff.mp hw
  refine ⟨(scan text)[k], (scan text).drop (k + 1), ?_, hraw⟩
  rw [← List.drop_eq_getElem_cons hlt, List.take_append_drop]

theorem tokenize_eq : tokenize text = .error f := by
  obtain ⟨w, later, hscan, hraw⟩ := h.scan_eq
  rw [tokenize, hscan, List.mapM_append, h.before, List.mapM_cons, hraw, h.fault]
  rfl

/-- The tokens before the word are run, and then its fault is met. -/
theorem runText_eq {Op : Type} (call : Act.Call Op) :
    Act.runText call text = (do Act.interpret call ts; Act.fail (.fault f)) := by
  obtain ⟨w, later, hscan, hraw⟩ := h.scan_eq
  have hfails : Act.runWords call (w :: later) = Act.fail (.fault f) := by
    rw [Act.runWords, hraw, h.fault]
    rfl
  rw [Act.runText, hscan, Act.runWords_append, Act.runWords_eq_interpret call h.before, hfails]

end StopsAt

end Token

/-! ## Running a text and running its tokens -/

namespace World

variable {Op : Type} (w : World Op) (limit : Nat)

/-- Takes all tokens of a text, and runs them then. -/
def runTokens (text : String) : Act Op Unit := do
  Act.interpret (w.execute limit) (← Act.orFault (Token.tokenize text))

theorem runTokens_of_ok {text : String} {ts : List Token} (h : Token.tokenize text = .ok ts) :
    w.runTokens limit text = Act.interpret (w.execute limit) ts := by
  rw [runTokens, h, Act.orFault, pure_bind]

theorem runTokens_of_error {text : String} {f : Fault} (h : Token.tokenize text = .error f) :
    w.runTokens limit text = Act.fail (.fault f) := by
  rw [runTokens, h, Act.orFault]
  rfl

/-- **Running a text word by word.**

* If all its words can be classified, a text runs exactly as its tokens do.
* If the word number `k` is the first that cannot, it is a numeral of more than 4300 digits. The text runs as
  the tokens before that word do; if these come to a normal end, the fault of the word follows, in the state
  and behind the output that they left. Asking for the tokens of the text meets the same fault, and then
  nothing has been run.
* One of these is the case for every text, and the tokens that a cursor gives one by one, until there is
  none, are the tokens of the text. -/
theorem run_word_by_word (text : String) :
    (∀ ts, Token.tokenize text = .ok ts →
      w.run limit text = Act.interpret (w.execute limit) ts ∧
        w.run limit text = w.runTokens limit text) ∧
    (∀ k ts raw f, Token.StopsAt text k ts raw f →
      (∃ negative ds, Token.IsRun raw.toList negative ds ∧ 4300 < ds.length ∧
        f = .numeralTooLong ds.length) ∧
      (∀ s e, (Act.interpret (w.execute limit) ts s).result = .error e →
        w.run limit text s = Act.interpret (w.execute limit) ts s) ∧
      (∀ s, (Act.interpret (w.execute limit) ts s).result = .ok () →
        w.run limit text s =
          { Act.interpret (w.execute limit) ts s with result := .error (.fault f) }) ∧
      Token.tokenize text = .error f ∧
      ∀ s, w.runTokens limit text s = ⟨.error (.fault f), s, "", []⟩) ∧
    ((∃ ts, Token.tokenize text = .ok ts) ∨ ∃ k ts raw f, Token.StopsAt text k ts raw f) ∧
    (Cursor.start text).tokens = Token.tokenize text := by
  refine ⟨?_, ?_, ?_, Cursor.tokens_start text⟩
  · intro ts h
    have hrun : w.run limit text = Act.interpret (w.execute limit) ts :=
      Act.runWords_eq_interpret (w.execute limit) h
    exact ⟨hrun, hrun.trans (w.runTokens_of_ok limit h).symm⟩
  · intro k ts raw f h
    have hrun : w.run limit text = _ := h.runText_eq (w.execute limit)
    refine ⟨Token.classify_eq_error_iff.mp h.fault, ?_, ?_, h.tokenize_eq, ?_⟩
    · intro s e he
      rw [hrun, Act.bind_apply_of_error he, ← he]
    · intro s hok
      rw [hrun, Act.bind_apply_of_ok hok, Act.fail_apply]
      simp
    · intro s
      rw [w.runTokens_of_error limit h.tokenize_eq, Act.fail_apply]
  · cases h : Token.tokenize text with
    | ok ts => exact .inl ⟨ts, rfl⟩
    | error f =>
      obtain ⟨k, ts, raw, hstops⟩ := Token.exists_stopsAt_of_error h
      exact .inr ⟨k, ts, raw, f, hstops⟩

end World

end WordMachine
