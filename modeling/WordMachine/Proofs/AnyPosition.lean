import WordMachine.Proofs.WordByWord

/-!
# Cursors at any position

A cursor may be asked for anything in any order, and its position may be set to any integer in between.
`Request` lists what it can be asked for and `Cursor.after` is where requests leave it, those that fail
included. They never touch the text, so whatever holds at every position of a text holds at every point of
every such history.

Two things can fail, and `respond_eq_error_iff` says exactly when. A position that is outside the text and
fits no word of 64 bits cannot be read from, and a declaration wants the character before it. Where a cursor
can be read from, the next word moves it on by one character at least and never beyond the end
(`next?_cases`). So asking for words again and again comes to an end: `Yields` is that loop, and it gives
the words that `Cursor.words` takes all at once (`yields_wordsAhead`).
-/

namespace WordMachine

open Text Word

/-- A word shows some text. -/
theorem Word.shown_ne_empty (before : Option Char) (c : Char) (cs : List Char) :
    (lexeme c cs).shown before ≠ "" := by
  intro hempty
  have hchars := congrArg String.toList hempty
  unfold Lexeme.shown at hchars
  split at hchars
  · simp at hchars
  · rw [String.toList_ofList] at hchars
    exact span_lexeme_ne_nil c cs hchars

namespace Cursor

/-! ## Requests -/

/-- What a cursor can be asked for. -/
inductive Request where
  /-- To stand at a position. -/
  | moveTo (pos : Int)
  | blanks
  | comment
  | literal
  | run
  | declaration
  /-- The next word. -/
  | next
  /-- All words that are left. -/
  | words

/-- What a cursor answers: that it moved, a text or a word it took if there was one, or several words. -/
inductive Answer where
  | moved
  | text (taken : Option String)
  | word (taken : Option Word)
  | words (taken : List Word)

/-- The answer about a text that may have been taken, and the cursor then. -/
def taken (c : Cursor) : Option (String × Cursor) → Answer × Cursor
  | none => (.text none, c)
  | some (t, c') => (.text (some t), c')

/-- An answer with the cursor that it leaves. A failure leaves the cursor alone. -/
def settle (c : Cursor) : Except Fault (Answer × Cursor) → Except Fault Answer × Cursor
  | .ok (a, c') => (.ok a, c')
  | .error f => (.error f, c)

/-- What a cursor answers to a request, and the cursor then. -/
def respond (c : Cursor) : Request → Except Fault Answer × Cursor
  | .moveTo pos => (.ok .moved, { c with pos := pos })
  | .blanks => c.settle (c.blanks.map fun r => (.text (some r.1), r.2))
  | .comment => c.settle (c.comment?.map c.taken)
  | .literal => c.settle (c.literal?.map c.taken)
  | .run => c.settle (c.run?.map c.taken)
  | .declaration => (c.declaration.1.map fun t => .text (some t), c.declaration.2)
  | .next => c.settle (c.next?.map fun r => (.word r.1, r.2))
  | .words => c.settle (c.words.map fun r => (.words r.1, r.2))

/-- The cursor behind requests, whether they failed or not. -/
def after (c : Cursor) (requests : List Request) : Cursor :=
  requests.foldl (fun c r => (c.respond r).2) c

/-- The cursor behind all of the text. -/
def atEnd (c : Cursor) : Cursor :=
  { c with pos := c.text.length }

/-- Whether a cursor can be read from: its position is in the text, or fits a word of 64 bits. -/
def Readable (c : Cursor) : Prop :=
  0 ≤ c.pos ∧ c.pos ≤ c.text.length ∨ -0x8000000000000000 ≤ c.pos ∧ c.pos < 0x8000000000000000

theorem look_of_readable {c : Cursor} (h : c.Readable) : c.look = .ok c.ahead := by
  rcases h with ⟨hzero, hend⟩ | ⟨hlow, hhigh⟩
  · apply look_of_inside
    simp [inside, hzero, hend]
  · apply look_of_fitsWord
    simp only [fitsWord, Bool.and_eq_true, decide_eq_true_eq]
    omega

theorem look_of_not_readable {c : Cursor} (h : ¬ c.Readable) :
    c.look = .error .positionTooLarge := by
  unfold Readable at h
  apply look_of_not_fitsWord
  · rw [inside, Bool.and_eq_false_iff, decide_eq_false_iff_not, decide_eq_false_iff_not]
    omega
  · rw [fitsWord, Bool.and_eq_false_iff, decide_eq_false_iff_not, decide_eq_false_iff_not]
    omega

/-! ## The next word -/

section Next

variable {c : Cursor}

theorem place_le (c : Cursor) : c.place ≤ c.text.length :=
  Nat.min_le_right _ _

theorem length_ahead (c : Cursor) : c.ahead.length = c.text.length - c.place :=
  List.length_drop

/-- Behind blanks that run to the end there is no more text. -/
theorem behindBlanks_of_nil (h : c.ahead.dropWhile isBlank = []) : c.behindBlanks = c.atEnd := by
  have hall : c.ahead.takeWhile isBlank = c.ahead := by
    have happend := List.takeWhile_append_dropWhile (p := isBlank) (l := c.ahead)
    rwa [h, List.append_nil] at happend
  have hplace := c.place_le
  have hlength := c.length_ahead
  have hpos : ((c.place : Int) + (c.ahead.length : Nat)) = c.text.length := by omega
  unfold behindBlanks advance atEnd
  rw [hall, hpos]

theorem min_le_place_behindBlanks (c : Cursor) :
    min c.pos c.text.length ≤ c.behindBlanks.place := by
  have hblanks : c.behindBlanks.place = c.place + (c.ahead.takeWhile isBlank).length :=
    place_advance List.takeWhile_append_dropWhile.symm
  -- blanks are taken from the nearest place in the text, so a position beyond the end moves back first
  have hplace : c.place = min c.pos.toNat c.text.length := rfl
  omega

/-- Where a cursor can be read from, it gives no word and stands at the end then, or it gives a word that
is not empty and has moved behind it. -/
theorem next?_cases (hlook : c.look = .ok c.ahead) :
    c.next? = .ok (none, c.atEnd) ∨
    ∃ w c', c.next? = .ok (some w, c') ∧ c'.text = c.text ∧ w.text ≠ "" ∧
      min c.pos c.text.length ≤ w.position ∧ w.position < c'.pos ∧ c'.pos ≤ c.text.length := by
  cases hcs : c.ahead.dropWhile isBlank with
  | nil =>
    left
    rw [next?_of_nil hlook hcs, behindBlanks_of_nil hcs]
  | cons d ds =>
    right
    have hspan : c.behindBlanks.ahead = (lexeme d ds).span ++ (lexeme d ds).rest := by
      rw [ahead_behindBlanks, hcs, lexeme_append]
    have hpos := List.length_pos_iff.mpr (span_lexeme_ne_nil d ds)
    have hend := place_le (c.behindBlanks.advance (lexeme d ds).span.length)
    rw [place_advance hspan] at hend
    refine ⟨_, _, next?_of_cons hlook hcs, rfl, shown_ne_empty _ d ds, ?_, ?_, ?_⟩
    · exact c.min_le_place_behindBlanks
    · show (c.behindBlanks.place : Int) < c.behindBlanks.place + (lexeme d ds).span.length
      omega
    · show (c.behindBlanks.place + (lexeme d ds).span.length : Int) ≤ c.text.length
      have hsame : (c.behindBlanks.advance (lexeme d ds).span.length).text = c.text := rfl
      rw [hsame] at hend
      omega

theorem next?_atEnd (c : Cursor) : c.atEnd.next? = .ok (none, c.atEnd) := by
  have hplace : c.atEnd.place = c.text.length := by simp [atEnd, place]
  have hinside : c.atEnd.inside = true := by simp [atEnd, inside]
  have hahead : c.atEnd.ahead = [] := by
    rw [ahead, hplace]
    exact List.drop_length
  have hnil : c.atEnd.ahead.dropWhile isBlank = [] := by rw [hahead, List.dropWhile_nil]
  rw [next?_of_nil (look_of_inside hinside) hnil, behindBlanks_of_nil hnil]
  rfl

end Next

/-! ## All words -/

/-- Asked for the next word again and again, the first cursor gives these words, and then none and
the last cursor. -/
inductive Yields : Cursor → List Word → Cursor → Prop where
  | done {c c' : Cursor} (h : c.next? = .ok (none, c')) : Yields c [] c'
  | word {c c' last : Cursor} {w : Word} {ws : List Word} (h : c.next? = .ok (some w, c'))
    (hrest : Yields c' ws last) : Yields c (w :: ws) last

/-- Each word takes something off what is ahead. -/
theorem Yields.length_le {c last : Cursor} {ws : List Word} (h : Yields c ws last) :
    ws.length ≤ c.ahead.length := by
  induction h with
  | done _ => exact Nat.zero_le _
  | word hnext _ ih =>
    have hless := length_ahead_of_next? hnext
    rw [List.length_cons]
    omega

/-- The loop comes to its end, and gives the words that are ahead. -/
theorem yields_wordsAhead {c : Cursor} (hlook : c.look = .ok c.ahead) :
    Yields c c.wordsAhead c.atEnd := by
  -- the loop has no counter; what is ahead gets shorter with every word
  induction hn : c.ahead.length using Nat.strong_induction_on generalizing c with
  | _ n ih =>
    subst hn
    cases hcs : c.ahead.dropWhile isBlank with
    | nil =>
      rw [wordsAhead_of_nil hcs]
      apply Yields.done
      rw [next?_of_nil hlook hcs, behindBlanks_of_nil hcs]
    | cons d ds =>
      have hspan : c.behindBlanks.ahead = (lexeme d ds).span ++ (lexeme d ds).rest := by
        rw [ahead_behindBlanks, hcs, lexeme_append]
      have hnext := next?_of_cons hlook hcs
      rw [wordsAhead_of_cons hcs]
      apply Yields.word hnext
      exact ih _ (length_ahead_of_next? hnext) (look_of_inside (inside_advance hspan)) rfl

theorem words_of_look {c : Cursor} (hlook : c.look = .ok c.ahead) :
    c.words = .ok (c.wordsAhead, c.atEnd) := by
  rw [words, hlook]
  rfl

/-! ## What a request does -/

/-- Whether a request reads the text from the position on. -/
def Request.Reads : Request → Prop
  | .moveTo _ => False
  | .declaration => False
  | _ => True

section Respond

variable {c : Cursor} {r : Request}

theorem delimited?_of_look {cs : List Char} (h : c.look = .ok cs) (opening closing : Char) :
    ∃ t, c.delimited? opening closing = .ok t ∧ ∀ r ∈ t, r.2.text = c.text := by
  unfold delimited?
  rw [h]
  cases cs with
  | nil => exact ⟨none, rfl, by simp⟩
  | cons d ds =>
    refine ⟨_, rfl, ?_⟩
    intro r hr
    split at hr
    · cases hr
      rfl
    · cases hr

theorem run?_of_look {cs : List Char} (h : c.look = .ok cs) :
    ∃ t, c.run? = .ok t ∧ ∀ r ∈ t, r.2.text = c.text := by
  simp only [run?, h, bind, Except.bind, pure, Except.pure]
  split
  · exact ⟨none, rfl, by simp⟩
  · refine ⟨_, rfl, ?_⟩
    intro r hr
    cases hr
    rfl

theorem settle_taken {m : Except Fault (Option (String × Cursor))}
    (h : ∃ t, m = .ok t ∧ ∀ r ∈ t, r.2.text = c.text) :
    ∃ a c', c.settle (m.map c.taken) = (.ok a, c') ∧ c'.text = c.text := by
  obtain ⟨t, rfl, ht⟩ := h
  cases t with
  | none => exact ⟨_, _, rfl, rfl⟩
  | some r => exact ⟨_, _, rfl, ht r rfl⟩

/-- A cursor that can be read from answers every request to read. -/
theorem respond_of_look (hr : r.Reads) (hlook : c.look = .ok c.ahead) :
    ∃ a c', c.respond r = (.ok a, c') ∧ c'.text = c.text := by
  cases r with
  | moveTo _ => exact hr.elim
  | declaration => exact hr.elim
  | blanks =>
    have hblanks : c.blanks = .ok (c.take (c.ahead.takeWhile isBlank)) := by
      rw [blanks, hlook]
      rfl
    rw [respond, hblanks]
    exact ⟨_, _, rfl, rfl⟩
  | comment => exact settle_taken (delimited?_of_look hlook _ _)
  | literal => exact settle_taken (delimited?_of_look hlook _ _)
  | run => exact settle_taken (run?_of_look hlook)
  | next =>
    rw [respond]
    rcases next?_cases hlook with hnext | ⟨w, c', hnext, htext, -⟩
    · rw [hnext]
      exact ⟨_, _, rfl, rfl⟩
    · rw [hnext]
      exact ⟨_, _, rfl, htext⟩
  | words =>
    rw [respond, words_of_look hlook]
    exact ⟨_, _, rfl, rfl⟩

/-- A cursor that cannot be read from answers none, and stays where it is. -/
theorem respond_of_look_error {f : Fault} (hr : r.Reads) (hlook : c.look = .error f) :
    c.respond r = (.error f, c) := by
  cases r with
  | moveTo _ => exact hr.elim
  | declaration => exact hr.elim
  | next =>
    rw [respond, next?_of_error hlook]
    rfl
  | _ =>
    simp only [respond, blanks, comment?, literal?, delimited?, run?, words, hlook]
    rfl

theorem declaration_snd (c : Cursor) : c.declaration.2 = { c with pos := c.pos + 1 } := by
  unfold declaration
  dsimp only
  split
  · rfl
  · split <;> rfl

/-- A declaration fails where there is no character before it to look at. -/
theorem declaration_eq_error_iff {f : Fault} :
    c.declaration.1 = .error f ↔ 2 ≤ c.pos + 1 ∧ c.text.length ≤ c.pos + 1 - 2 ∧
      f = if fitsWord (c.pos + 1 - 2) then .indexOutOfRange else .indexTooLarge := by
  unfold declaration
  dsimp only
  by_cases hstart : c.pos + 1 - 2 < 0
  · rw [if_pos hstart]
    constructor
    · intro h
      cases h
    · intro h
      omega
  · rw [if_neg hstart]
    cases hget : c.text[(c.pos + 1 - 2).toNat]? with
    | none =>
      have hend := List.getElem?_eq_none_iff.mp hget
      constructor
      · intro h
        cases h
        exact ⟨by omega, by omega, rfl⟩
      · rintro ⟨-, -, rfl⟩
        rfl
    | some d =>
      obtain ⟨hlt, -⟩ := List.getElem?_eq_some_iff.mp hget
      constructor
      · intro h
        cases h
      · intro h
        omega

/-- Which requests a cursor refuses, and with which fault. -/
def Refuses (c : Cursor) : Request → Fault → Prop
  | .moveTo _, _ => False
  | .declaration, f => 2 ≤ c.pos + 1 ∧ c.text.length ≤ c.pos + 1 - 2 ∧
      f = if fitsWord (c.pos + 1 - 2) then .indexOutOfRange else .indexTooLarge
  | _, f => ¬ c.Readable ∧ f = .positionTooLarge

theorem refuses_of_reads (hr : r.Reads) {f : Fault} :
    c.Refuses r f ↔ ¬ c.Readable ∧ f = .positionTooLarge := by
  cases r with
  | moveTo _ => exact hr.elim
  | declaration => exact hr.elim
  | _ => exact Iff.rfl

theorem respond_eq_error_iff {f : Fault} : (c.respond r).1 = .error f ↔ c.Refuses r f := by
  by_cases hr : r.Reads
  · rw [refuses_of_reads hr]
    by_cases h : c.Readable
    · obtain ⟨a, c', hrespond, -⟩ := respond_of_look hr (look_of_readable h)
      simp [hrespond, h]
    · simp [respond_of_look_error hr (look_of_not_readable h), h, eq_comm]
  · cases r with
    | moveTo pos => simp [respond, Refuses]
    | declaration =>
      refine Iff.trans ?_ declaration_eq_error_iff
      unfold respond
      cases c.declaration.1 with
      | ok t => simp [Except.map]
      | error g => simp [Except.map]
    | _ => exact absurd trivial hr

theorem text_respond (c : Cursor) (r : Request) : (c.respond r).2.text = c.text := by
  by_cases hr : r.Reads
  · by_cases h : c.Readable
    · obtain ⟨a, c', hrespond, htext⟩ := respond_of_look hr (look_of_readable h)
      rw [hrespond]
      exact htext
    · rw [respond_of_look_error hr (look_of_not_readable h)]
  · cases r with
    | moveTo pos => rfl
    | declaration =>
      unfold respond
      rw [declaration_snd]
    | _ => exact absurd trivial hr

end Respond

theorem text_after (c : Cursor) (requests : List Request) : (c.after requests).text = c.text := by
  induction requests generalizing c with
  | nil => rfl
  | cons r requests ih =>
    have hlater := ih (c.respond r).2
    rwa [text_respond] at hlater

/-! ## Any history -/

/-- **A cursor is safe at any position, and always comes to an end.** Let a cursor in a text have been
asked for anything in any order, and be set to any positions in between.

* Its text is the same, and the requests that it refuses now are these: to read, if its position is
  outside the text and fits no word of 64 bits, which leaves it alone; and a declaration, if that is
  at the second character or later and has no character before it. A declaration moves it on by one
  in any case.
* Where it can be read from, it gives no word and stands at the end of the text then, or it gives a word
  that is not empty, starts at its position or later, and ends where it stands then.
* All words from there are at most as many as the text has characters, and it stands at the end then.
  They are the words it gives one by one until there is none.
* At the end of the text it gives no word and stays there. -/
theorem safe_at_any_position (text : String) (requests : List Request) :
    let c := (start text).after requests
    let last : Cursor := ⟨text.toList, text.toList.length⟩
    c.text = text.toList ∧
    (∀ r f, (c.respond r).1 = .error f ↔ c.Refuses r f) ∧
    (∀ r, r.Reads → ¬ c.Readable → (c.respond r).2 = c) ∧
    (c.respond .declaration).2 = { c with pos := c.pos + 1 } ∧
    (c.Readable →
      (c.next? = .ok (none, last) ∨
        ∃ w c', c.next? = .ok (some w, c') ∧ c'.text = text.toList ∧ w.text ≠ "" ∧
          min c.pos last.pos ≤ w.position ∧ w.position < c'.pos ∧ c'.pos ≤ last.pos) ∧
      ∃ ws, c.words = .ok (ws, last) ∧ Yields c ws last ∧ ws.length ≤ text.toList.length) ∧
    last.next? = .ok (none, last) := by
  intro c last
  have htext : c.text = text.toList := text_after (start text) requests
  have hlast : c.atEnd = last := by simp [atEnd, last, htext]
  refine ⟨htext, fun r f => respond_eq_error_iff, ?_, ?_, ?_, ?_⟩
  · intro r hr h
    rw [respond_of_look_error hr (look_of_not_readable h)]
  · exact c.declaration_snd
  · intro h
    have hlook := look_of_readable h
    have hnext := next?_cases hlook
    have hyields := yields_wordsAhead hlook
    have hlength := hyields.length_le
    have hahead := c.length_ahead
    rw [hlast, htext] at hnext
    rw [hlast] at hyields
    rw [htext] at hahead
    exact ⟨hnext, c.wordsAhead, hlast ▸ words_of_look hlook, hyields, by omega⟩
  · rw [← hlast]
    exact c.next?_atEnd

/-- A position that fits no word of 64 bits makes the next word fail, and all words. -/
theorem beyond_words_of_64_bits :
    let c := (start "あ").after [.moveTo 0x8000000000000000]
    c.next? = .error .positionTooLarge ∧ c.words = .error .positionTooLarge := by
  decide

end Cursor

end WordMachine
