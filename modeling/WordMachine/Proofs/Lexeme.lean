import WordMachine.Word

/-!
# One word at a time

What `Word.cutAfter` and `Word.lexeme` take off a text, said without their recursion. A delimited word
runs through the first closing mark (`cutAfter_append_cons`) or to the end if there is none
(`cutAfter_of_not_mem`). Which of the four kinds a word has is settled by its first character
(`lexeme_cases`), so a fact about all words is proved kind by kind.
-/

namespace WordMachine.Word

open Text

/-! ## Cutting behind a mark -/

theorem cutAfter_append_cons {close : Char} {body : List Char} (h : close ∉ body)
    (rest : List Char) : cutAfter close (body ++ close :: rest) = (body ++ [close], rest) := by
  induction body with
  | nil => simp [cutAfter]
  | cons c body ih =>
    have hc : c ≠ close := fun hc => h (by simp [hc])
    have hbody : close ∉ body := fun hmem => h (by simp [hmem])
    rw [List.cons_append, cutAfter, if_neg hc, ih hbody]
    rfl

theorem cutAfter_of_not_mem {close : Char} {cs : List Char} (h : close ∉ cs) :
    cutAfter close cs = (cs, []) := by
  induction cs with
  | nil => rfl
  | cons c cs ih =>
    have hc : c ≠ close := fun hc => h (by simp [hc])
    have hcs : close ∉ cs := fun hmem => h (by simp [hmem])
    rw [cutAfter, if_neg hc, ih hcs]

/-- A text is cut behind the first mark, whatever follows it. -/
theorem cutAfter_append_of_mem {close : Char} {cs : List Char} (h : close ∈ cs) (more : List Char) :
    cutAfter close (cs ++ more) = ((cutAfter close cs).1, (cutAfter close cs).2 ++ more) := by
  obtain ⟨body, rest, rfl, hbody⟩ := List.eq_append_cons_of_mem h
  rw [List.append_assoc, List.cons_append, cutAfter_append_cons hbody, cutAfter_append_cons hbody]

theorem getLast?_cutAfter (close : Char) (cs : List Char) :
    (cutAfter close cs).1.getLast? = some close ↔ close ∈ cs := by
  by_cases h : close ∈ cs
  · obtain ⟨body, rest, rfl, hbody⟩ := List.eq_append_cons_of_mem h
    simp [cutAfter_append_cons hbody]
  · rw [cutAfter_of_not_mem h]
    exact ⟨fun hlast => absurd (List.mem_of_getLast? hlast) h, fun hmem => absurd hmem h⟩

/-- A run of characters ends at the latest where one does not belong to it. -/
theorem takeWhile_append_of_stop {p : Char → Bool} {n : Char} (hn : p n = false)
    (cs more : List Char) :
    (cs ++ n :: more).takeWhile p = cs.takeWhile p ∧
      (cs ++ n :: more).dropWhile p = cs.dropWhile p ++ n :: more := by
  induction cs with
  | nil => simp [hn]
  | cons c cs ih =>
    by_cases hc : p c = true
    · simp [hc, ih]
    · simp [hc]

/-! ## The kinds by their first characters -/

theorem lexeme_comment (cs : List Char) :
    lexeme commentMark cs =
      ⟨.comment, commentMark :: (cutAfter commentMark cs).1, (cutAfter commentMark cs).2⟩ := by
  simp [lexeme]

theorem lexeme_literal (cs : List Char) :
    lexeme literalOpen cs =
      ⟨.literal, literalOpen :: (cutAfter literalClose cs).1, (cutAfter literalClose cs).2⟩ := by
  rw [lexeme, if_neg (by decide), if_pos rfl]

theorem lexeme_declaration (cs : List Char) :
    lexeme declarationMark cs = ⟨.declaration, [declarationMark], cs⟩ := by
  rw [lexeme, if_neg (by decide), if_neg (by decide), if_pos rfl]

/-- Whether a character starts a plain word, unless it is blank. -/
def StartsPlain (c : Char) : Prop :=
  c ≠ commentMark ∧ c ≠ literalOpen ∧ c ≠ declarationMark

theorem lexeme_plain {c : Char} (h : StartsPlain c) (cs : List Char) :
    lexeme c cs = ⟨.plain, c :: cs.takeWhile (!isBlank ·), cs.dropWhile (!isBlank ·)⟩ := by
  rw [lexeme, if_neg h.1, if_neg h.2.1, if_neg h.2.2]

theorem lexeme_cases (c : Char) :
    c = commentMark ∨ c = literalOpen ∨ c = declarationMark ∨ StartsPlain c := by
  by_cases h₁ : c = commentMark
  · exact .inl h₁
  · by_cases h₂ : c = literalOpen
    · exact .inr (.inl h₂)
    · by_cases h₃ : c = declarationMark
      · exact .inr (.inr (.inl h₃))
      · exact .inr (.inr (.inr ⟨h₁, h₂, h₃⟩))

/-! ## Word by word -/

/-- Induction along a scan: over the blanks and the words of a text, with the character before the
rest and its position. -/
@[elab_as_elim]
theorem scan_induction {motive : Option Char → Nat → List Char → Prop}
    (nil : ∀ before pos, motive before pos [])
    (blank : ∀ before pos c cs, isBlank c = true → motive (some c) (pos + 1) cs →
      motive before pos (c :: cs))
    (word : ∀ before pos c cs, isBlank c = false →
      motive (lexeme c cs).span.getLast? (pos + (lexeme c cs).span.length) (lexeme c cs).rest →
      motive before pos (c :: cs))
    (before : Option Char) (pos : Nat) (cs : List Char) : motive before pos cs :=
  scanFrom.induct motive nil blank
    (fun before pos c cs hc ih => word before pos c cs (by simpa using hc) ih) before pos cs

theorem isBlank_literalOpen : isBlank literalOpen = false := by decide

/-- A closed literal is one word, and the scan goes on behind it. -/
theorem scanFrom_literal {body : List Char} (h : literalClose ∉ body) (before : Option Char)
    (pos : Nat) (rest : List Char) :
    scanFrom before pos (literalOpen :: (body ++ literalClose :: rest)) =
      ⟨String.ofList (literalOpen :: (body ++ [literalClose])), pos, .literal⟩ ::
        scanFrom (some literalClose) (pos + (body.length + 2)) rest := by
  rw [scanFrom_cons_of_not_isBlank isBlank_literalOpen, lexeme_literal, cutAfter_append_cons h]
  have hlast : (literalOpen :: (body ++ [literalClose])).getLast? = some literalClose := by
    rw [← List.cons_append, List.getLast?_concat]
  simp [Lexeme.shown, hlast]

/-- Characters none of which is blank, up to the end of the text, are one plain word. -/
theorem scanFrom_plain {c : Char} {cs : List Char} (hc : StartsPlain c)
    (h : ∀ d ∈ c :: cs, isBlank d = false) (before : Option Char) (pos : Nat) :
    scanFrom before pos (c :: cs) = [⟨String.ofList (c :: cs), pos, .plain⟩] := by
  have hrest : ∀ d ∈ cs, (!isBlank d) = true := by
    intro d hd
    simp [h d (by simp [hd])]
  have htake : (cs ++ []).takeWhile (!isBlank ·) = cs ++ [].takeWhile (!isBlank ·) :=
    List.takeWhile_append_of_pos hrest
  have hdrop : (cs ++ []).dropWhile (!isBlank ·) = [].dropWhile (!isBlank ·) :=
    List.dropWhile_append_of_pos hrest
  simp only [List.append_nil, List.takeWhile_nil, List.dropWhile_nil] at htake hdrop
  rw [scanFrom_cons_of_not_isBlank (h c (by simp)), lexeme_plain hc, htake, hdrop]
  simp [Lexeme.shown]

end WordMachine.Word
