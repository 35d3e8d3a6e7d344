import Mathlib.Data.List.Basic
import Mathlib.Data.List.TakeWhile
import WordMachine.Proofs.Lexeme

/-!
# The grammar of words

`Forms kind chars after` says which characters are a word of which kind, given the text that follows
them. It mentions no scanner. A `Segmentation` of a text is a row of spans inside it, each a word by
this grammar, such that all characters outside are blank, and `Spells text ws` holds for the words
`ws` that a segmentation shows.

Every text has exactly one segmentation, and its words are what `scan` gives. Two facts carry the
proof.

* Where a word starts, the grammar leaves no choice of its kind and its end (`Forms.lexeme_eq`),
  because a closing mark, a blank or the end of the text has to follow.
* No word starts with a blank (`Forms.head`). So the first character that is not blank starts the
  first span, and what follows that span is segmented in turn (`Segmentation.word_iff`).
-/

namespace WordMachine.Word

open Text

/-! ## The rules -/

/-- `opening`, then no `closing`, then `closing` or the end of the text. -/
def Delimited (opening closing : Char) (chars after : List Char) : Prop :=
  ∃ body, closing ∉ body ∧
    (chars = opening :: (body ++ [closing]) ∨ chars = opening :: body ∧ after = [])

/-- The characters `chars` are a word of the given kind if `after` follows them in the text. -/
def Forms (kind : Kind) (chars after : List Char) : Prop :=
  match kind with
  | .comment => Delimited commentMark commentMark chars after
  | .literal => Delimited literalOpen literalClose chars after
  | .declaration => chars = [declarationMark]
  | .plain =>
    (∃ c cs, chars = c :: cs ∧ StartsPlain c) ∧ (∀ c ∈ chars, isBlank c = false) ∧
      (after = [] ∨ ∃ d ds, after = d :: ds ∧ isBlank d = true)

/-- A stretch of a text, from `start` to before `stop`, and the kind of word it is. -/
structure Span where
  start : Nat
  stop : Nat
  kind : Kind

/-- The characters of a span. -/
def Span.chars (text : List Char) (sp : Span) : List Char :=
  (text.drop sp.start).take (sp.stop - sp.start)

/-- The word that a span shows: its characters, but とは for a declaration right behind と. -/
def Span.word (text : List Char) (sp : Span) : Word where
  text :=
    if sp.kind = .declaration ∧ 0 < sp.start ∧ text[sp.start - 1]? = some aliasParticle then
      String.ofList [aliasParticle, declarationMark]
    else String.ofList (sp.chars text)
  position := sp.start
  kind := sp.kind

/-- Spans that are disjoint, in order and inside the text from position `p` on, each of them a word,
and only blanks outside. -/
structure Segmentation (text : List Char) (p : Nat) (spans : List Span) : Prop where
  behind : ∀ sp ∈ spans, p ≤ sp.start
  inside : ∀ sp ∈ spans, sp.start ≤ sp.stop ∧ sp.stop ≤ text.length
  increasing : spans.Pairwise fun a b => a.stop ≤ b.start
  forms : ∀ sp ∈ spans, Forms sp.kind (sp.chars text) (text.drop sp.stop)
  blank : ∀ i c, p ≤ i → text[i]? = some c →
    (∀ sp ∈ spans, ¬ (sp.start ≤ i ∧ i < sp.stop)) → isBlank c = true

/-- The words `ws` are a reading of the whole text by the grammar. -/
def Spells (text : String) (ws : List Word) : Prop :=
  ∃ spans, Segmentation text.toList 0 spans ∧ ws = spans.map (Span.word text.toList)

/-! ## One word -/

theorem Delimited.head {opening closing : Char} {chars after : List Char}
    (h : Delimited opening closing chars after) : ∃ cs, chars = opening :: cs := by
  obtain ⟨body, -, rfl | ⟨rfl, -⟩⟩ := h
  · exact ⟨_, rfl⟩
  · exact ⟨_, rfl⟩

theorem Forms.head {kind : Kind} {chars after : List Char} (h : Forms kind chars after) :
    ∃ c cs, chars = c :: cs ∧ isBlank c = false := by
  cases kind with
  | comment =>
    obtain ⟨cs, rfl⟩ := Delimited.head h
    exact ⟨_, cs, rfl, by decide⟩
  | literal =>
    obtain ⟨cs, rfl⟩ := Delimited.head h
    exact ⟨_, cs, rfl, by decide⟩
  | declaration => exact ⟨_, [], h, by decide⟩
  | plain =>
    obtain ⟨⟨c, cs, rfl, -⟩, hall, -⟩ := h
    exact ⟨c, cs, rfl, hall c (by simp)⟩

theorem Delimited.cutAfter_eq {opening closing : Char} {cs after : List Char}
    (h : Delimited opening closing (opening :: cs) after) :
    cutAfter closing (cs ++ after) = (cs, after) := by
  obtain ⟨body, hbody, heq | ⟨heq, rfl⟩⟩ := h
  · obtain ⟨-, rfl⟩ := List.cons.inj heq
    rw [List.append_assoc, List.singleton_append, cutAfter_append_cons hbody]
  · obtain ⟨-, rfl⟩ := List.cons.inj heq
    rw [List.append_nil, cutAfter_of_not_mem hbody]

theorem delimited_cutAfter (opening closing : Char) (cs : List Char) :
    Delimited opening closing (opening :: (cutAfter closing cs).1) (cutAfter closing cs).2 := by
  by_cases h : closing ∈ cs
  · obtain ⟨body, rest, rfl, hbody⟩ := List.eq_append_cons_of_mem h
    rw [cutAfter_append_cons hbody]
    exact ⟨body, hbody, .inl rfl⟩
  · rw [cutAfter_of_not_mem h]
    exact ⟨cs, h, .inr ⟨rfl, rfl⟩⟩

/-- The scanner takes a word by the grammar. -/
theorem forms_lexeme {c : Char} (hc : isBlank c = false) (cs : List Char) :
    Forms (lexeme c cs).kind (lexeme c cs).span (lexeme c cs).rest := by
  rcases lexeme_cases c with rfl | rfl | rfl | hplain
  · rw [lexeme_comment]
    exact delimited_cutAfter _ _ _
  · rw [lexeme_literal]
    exact delimited_cutAfter _ _ _
  · rw [lexeme_declaration]
    rfl
  · rw [lexeme_plain hplain]
    refine ⟨⟨c, _, rfl, hplain⟩, ?_, ?_⟩
    · intro d hd
      rcases List.mem_cons.mp hd with rfl | hd
      · exact hc
      · simpa using List.mem_takeWhile_imp hd
    · cases hrest : cs.dropWhile (!isBlank ·) with
      | nil => exact .inl rfl
      | cons d ds =>
        have hstop := List.head?_dropWhile_not (!isBlank ·) cs
        rw [hrest] at hstop
        exact .inr ⟨d, ds, rfl, by simpa using hstop⟩

/-- The grammar leaves no choice: a word that starts here is the one the scanner takes. -/
theorem Forms.lexeme_eq {kind : Kind} {c : Char} {chars cs after : List Char}
    (h : Forms kind chars after) (hsplit : chars ++ after = c :: cs) :
    lexeme c cs = ⟨kind, chars, after⟩ := by
  obtain ⟨d, ds, rfl, -⟩ := h.head
  rw [List.cons_append] at hsplit
  obtain ⟨rfl, rfl⟩ := List.cons.inj hsplit
  cases kind with
  | comment =>
    obtain ⟨_, hd⟩ := Delimited.head h
    obtain ⟨rfl, -⟩ := List.cons.inj hd
    rw [lexeme_comment, Delimited.cutAfter_eq h]
  | literal =>
    obtain ⟨_, hd⟩ := Delimited.head h
    obtain ⟨rfl, -⟩ := List.cons.inj hd
    rw [lexeme_literal, Delimited.cutAfter_eq h]
  | declaration =>
    obtain ⟨rfl, rfl⟩ := List.cons.inj h
    exact lexeme_declaration _
  | plain =>
    obtain ⟨⟨d', ds', heq, hplain⟩, hall, hafter⟩ := h
    obtain ⟨rfl, rfl⟩ := List.cons.inj heq
    have hds : ∀ x ∈ ds, (!isBlank x) = true := fun x hx => by
      simp [hall x (List.mem_cons_of_mem _ hx)]
    rw [lexeme_plain hplain, List.takeWhile_append_of_pos hds, List.dropWhile_append_of_pos hds]
    rcases hafter with rfl | ⟨e, es, rfl, he⟩
    · simp
    · simp [he]

/-! ## The first word -/

variable {text : List Char} {p : Nat} {spans : List Span} {c : Char} {cs : List Char}

theorem getElem?_of_drop (h : text.drop p = c :: cs) : text[p]? = some c := by
  have h0 := congrArg (·[0]?) h
  simpa using h0

theorem Span.chars_append_drop {sp : Span} (h : sp.start ≤ sp.stop) :
    sp.chars text ++ text.drop sp.stop = text.drop sp.start := by
  have hstop : sp.stop = sp.start + (sp.stop - sp.start) := by omega
  rw [Span.chars, hstop, ← List.drop_drop, Nat.add_sub_cancel_left, List.take_append_drop]

theorem Span.length_chars {sp : Span} (h : sp.stop ≤ text.length) :
    (sp.chars text).length = sp.stop - sp.start := by
  rw [Span.chars, List.length_take, List.length_drop]
  omega

/-- A span of a segmentation is the word that the scanner takes where the span starts. -/
theorem Segmentation.span_eq (h : Segmentation text p spans) {sp : Span} (hsp : sp ∈ spans) :
    ∃ c cs, text.drop sp.start = c :: cs ∧ isBlank c = false ∧ sp.start < sp.stop ∧
      sp = ⟨sp.start, sp.start + (lexeme c cs).span.length, (lexeme c cs).kind⟩ := by
  obtain ⟨hle, hlen⟩ := h.inside sp hsp
  have hforms := h.forms sp hsp
  obtain ⟨c, ds, hchars, hc⟩ := hforms.head
  have hsplit : sp.chars text ++ text.drop sp.stop = c :: (ds ++ text.drop sp.stop) := by
    rw [hchars, List.cons_append]
  have hlex := hforms.lexeme_eq hsplit
  have hcount := Span.length_chars hlen
  have hpos : 0 < (sp.chars text).length := by simp [hchars]
  refine ⟨c, ds ++ text.drop sp.stop, ?_, hc, by omega, ?_⟩
  · rw [← Span.chars_append_drop hle, hsplit]
  · have hstop : sp.start + (sp.chars text).length = sp.stop := by omega
    rw [hlex]
    dsimp only
    rw [hstop]

theorem segmentation_of_le (h : text.length ≤ p) : Segmentation text p spans ↔ spans = [] := by
  constructor
  · intro hseg
    by_contra hne
    obtain ⟨sp, rest, rfl⟩ := List.exists_cons_of_ne_nil hne
    obtain ⟨c, cs, -, -, hlt, -⟩ := hseg.span_eq (List.mem_cons_self (a := sp))
    have hbehind := hseg.behind sp (by simp)
    have hinside := hseg.inside sp (by simp)
    omega
  · rintro rfl
    refine ⟨by simp, by simp, .nil, by simp, ?_⟩
    intro i c hi hget
    have := (List.getElem?_eq_some_iff.mp hget).1
    omega

theorem lexeme_of_drop (h : text.drop p = c :: cs) :
    Span.chars text ⟨p, p + (lexeme c cs).span.length, (lexeme c cs).kind⟩ = (lexeme c cs).span ∧
      text.drop (p + (lexeme c cs).span.length) = (lexeme c cs).rest ∧
      p + (lexeme c cs).span.length ≤ text.length := by
  have hsplit := lexeme_append c cs
  have hlen := congrArg List.length (h.trans hsplit.symm)
  have hpos := List.length_pos_iff.mpr (span_lexeme_ne_nil c cs)
  rw [List.length_drop, List.length_append] at hlen
  refine ⟨?_, ?_, by omega⟩
  · rw [Span.chars, h, ← hsplit]
    simp
  · rw [← List.drop_drop, h, ← hsplit]
    simp

/-- A blank belongs to no word. -/
theorem Segmentation.blank_iff (htext : text.drop p = c :: cs) (hc : isBlank c = true) :
    Segmentation text p spans ↔ Segmentation text (p + 1) spans := by
  constructor
  · intro h
    refine ⟨?_, h.inside, h.increasing, h.forms, fun i d hi => h.blank i d (by omega)⟩
    intro sp hsp
    have hle := h.behind sp hsp
    obtain ⟨d, ds, hd, hblank, -, -⟩ := h.span_eq hsp
    have hne : sp.start ≠ p := by
      intro heq
      rw [heq, htext] at hd
      obtain ⟨rfl, -⟩ := List.cons.inj hd
      rw [hc] at hblank
      cases hblank
    omega
  · intro h
    refine ⟨fun sp hsp => ?_, h.inside, h.increasing, h.forms, ?_⟩
    · have := h.behind sp hsp
      omega
    · intro i d hi hget hout
      by_cases heq : i = p
      · rw [heq, getElem?_of_drop htext] at hget
        cases hget
        exact hc
      · exact h.blank i d (by omega) hget hout

/-- The first span starts at the first character that is not blank: some span covers that character,
and none can start before it. -/
theorem Segmentation.exists_first (h : Segmentation text p spans) (htext : text.drop p = c :: cs)
    (hc : isBlank c = false) : ∃ first rest, spans = first :: rest ∧ first.start = p := by
  have hcover : ∃ sp ∈ spans, sp.start = p := by
    by_contra hnone
    have hblank := h.blank p c (Nat.le_refl p) (getElem?_of_drop htext) fun sp hsp hmem =>
      hnone ⟨sp, hsp, by have := h.behind sp hsp; omega⟩
    rw [hc] at hblank
    cases hblank
  obtain ⟨sp, hsp, hstart⟩ := hcover
  obtain ⟨first, rest, rfl⟩ := List.exists_cons_of_ne_nil (List.ne_nil_of_mem hsp)
  refine ⟨first, rest, rfl, ?_⟩
  rcases List.mem_cons.mp hsp with rfl | hlater
  · exact hstart
  · have hle := (List.pairwise_cons.mp h.increasing).1 sp hlater
    have hbehind := h.behind first (by simp)
    obtain ⟨-, -, -, -, hlt, -⟩ := h.span_eq (List.mem_cons_self (a := first))
    omega

theorem Segmentation.tail {first : Span} {rest : List Span}
    (h : Segmentation text p (first :: rest)) : Segmentation text first.stop rest := by
  obtain ⟨hbefore, hrest⟩ := List.pairwise_cons.mp h.increasing
  have hbehind := h.behind first (by simp)
  obtain ⟨-, -, -, -, hlt, -⟩ := h.span_eq (List.mem_cons_self (a := first))
  refine ⟨hbefore, fun sp hsp => h.inside sp (by simp [hsp]), hrest,
    fun sp hsp => h.forms sp (by simp [hsp]), ?_⟩
  intro i e hi hget hout
  refine h.blank i e (by omega) hget fun sp hsp => ?_
  rcases List.mem_cons.mp hsp with rfl | hlater
  · omega
  · exact hout sp hlater

/-- The word that the scanner takes can be put in front of a segmentation of the rest. -/
theorem Segmentation.cons (htext : text.drop p = c :: cs) (hc : isBlank c = false)
    (h : Segmentation text (p + (lexeme c cs).span.length) spans) :
    Segmentation text p (⟨p, p + (lexeme c cs).span.length, (lexeme c cs).kind⟩ :: spans) := by
  obtain ⟨hchars, hdrop, hlen⟩ := lexeme_of_drop htext
  refine ⟨?_, ?_, List.pairwise_cons.mpr ⟨h.behind, h.increasing⟩, ?_, ?_⟩
  · intro sp hsp
    rcases List.mem_cons.mp hsp with rfl | hlater
    · exact Nat.le_refl p
    · have := h.behind sp hlater
      omega
  · intro sp hsp
    rcases List.mem_cons.mp hsp with rfl | hlater
    · exact ⟨Nat.le_add_right _ _, hlen⟩
    · exact h.inside sp hlater
  · intro sp hsp
    rcases List.mem_cons.mp hsp with rfl | hlater
    · rw [hchars, hdrop]
      exact forms_lexeme hc cs
    · exact h.forms sp hlater
  · intro i d hi hget hout
    have hnot := hout _ (List.mem_cons_self ..)
    dsimp only at hnot
    exact h.blank i d (by omega) hget fun sp hsp => hout sp (List.mem_cons_of_mem _ hsp)

/-- A character that is not blank starts the first word, and what follows that word is segmented in
turn. -/
theorem Segmentation.word_iff (htext : text.drop p = c :: cs) (hc : isBlank c = false) :
    Segmentation text p spans ↔
      ∃ rest, spans = ⟨p, p + (lexeme c cs).span.length, (lexeme c cs).kind⟩ :: rest ∧
        Segmentation text (p + (lexeme c cs).span.length) rest := by
  constructor
  · intro h
    obtain ⟨first, rest, rfl, hfirst⟩ := h.exists_first htext hc
    obtain ⟨d, ds, hd, -, -, heq⟩ := h.span_eq (List.mem_cons_self (a := first))
    rw [hfirst] at hd heq
    obtain ⟨rfl, rfl⟩ := List.cons.inj (htext.symm.trans hd)
    have hstop : first.stop = p + (lexeme c cs).span.length := by rw [heq]
    refine ⟨rest, by rw [← heq], ?_⟩
    rw [← hstop]
    exact h.tail
  · rintro ⟨rest, rfl, h⟩
    exact h.cons htext hc

/-! ## All words -/

/-- The character before the word that starts at `p`, as the scanner knows it. -/
theorem getLast?_take_eq_some_iff {d : Char} (hp : p ≤ text.length) :
    (text.take p).getLast? = some d ↔ 0 < p ∧ text[p - 1]? = some d := by
  rw [List.getLast?_take]
  by_cases h0 : p = 0
  · simp [h0]
  · have hlt : p - 1 < text.length := by omega
    simp [h0, List.getElem?_eq_getElem hlt]
    omega

/-- The first word of a text as the scanner gives it is what its span shows. -/
theorem Span.word_lexeme (htext : text.drop p = c :: cs) :
    Span.word text ⟨p, p + (lexeme c cs).span.length, (lexeme c cs).kind⟩ =
      ⟨(lexeme c cs).shown (text.take p).getLast?, p, (lexeme c cs).kind⟩ := by
  obtain ⟨hchars, -, hlen⟩ := lexeme_of_drop htext
  have hp : p ≤ text.length := by omega
  simp only [Span.word, Lexeme.shown, hchars, getLast?_take_eq_some_iff hp]

theorem segmentation_iff_eq (text : List Char) (before : Option Char) (p : Nat) (cs : List Char)
    (htext : text.drop p = cs) (hbefore : (text.take p).getLast? = before) :
    ∃ spans, scanFrom before p cs = spans.map (Span.word text) ∧
      ∀ spans', Segmentation text p spans' ↔ spans' = spans := by
  induction before, p, cs using scan_induction with
  | nil before p =>
    exact ⟨[], by simp, fun spans' => segmentation_of_le (List.drop_eq_nil_iff.mp htext)⟩
  | blank before p c cs hc ih =>
    have hget := getElem?_of_drop htext
    have hnext : text.drop (p + 1) = cs := by
      rw [← List.drop_drop, htext]
      rfl
    have hlast : (text.take (p + 1)).getLast? = some c := by
      rw [List.take_add_one, hget]
      simp
    obtain ⟨spans, hscan, huniq⟩ := ih hnext hlast
    refine ⟨spans, ?_, fun spans' => ?_⟩
    · rw [scanFrom_cons_of_isBlank hc, hscan]
    · rw [Segmentation.blank_iff htext hc, huniq]
  | word before p c cs hc ih =>
    obtain ⟨hchars, hdrop, -⟩ := lexeme_of_drop htext
    have hlast : (text.take (p + (lexeme c cs).span.length)).getLast? =
        (lexeme c cs).span.getLast? := by
      have htake : (text.drop p).take (lexeme c cs).span.length = (lexeme c cs).span := by
        simpa [Span.chars] using hchars
      rw [List.take_add, htake, List.getLast?_append_of_ne_nil _ (span_lexeme_ne_nil c cs)]
    obtain ⟨rest, hscan, huniq⟩ := ih hdrop hlast
    refine ⟨⟨p, p + (lexeme c cs).span.length, (lexeme c cs).kind⟩ :: rest, ?_, fun spans' => ?_⟩
    · rw [scanFrom_cons_of_not_isBlank hc, hscan, List.map_cons, Span.word_lexeme htext, hbefore]
    · rw [Segmentation.word_iff htext hc]
      constructor
      · rintro ⟨rest', rfl, hrest⟩
        rw [(huniq rest').mp hrest]
      · rintro rfl
        exact ⟨rest, rfl, (huniq rest).mpr rfl⟩

/-- Every word of a text is what one of its spans shows. -/
theorem exists_span_of_mem_scan {text : String} {w : Word} (hw : w ∈ scan text) :
    ∃ sp : Span, w = sp.word text.toList ∧ sp.start ≤ sp.stop ∧
      Forms sp.kind (sp.chars text.toList) (text.toList.drop sp.stop) := by
  obtain ⟨spans, hscan, huniq⟩ := segmentation_iff_eq text.toList none 0 text.toList rfl rfl
  have hseg := (huniq spans).mpr rfl
  rw [scan, hscan] at hw
  obtain ⟨sp, hsp, rfl⟩ := List.mem_map.mp hw
  exact ⟨sp, rfl, (hseg.inside sp hsp).1, hseg.forms sp hsp⟩

/-- **The scanner recognises exactly its grammar and loses nothing.** Every text has one and only one
segmentation into words and blanks, and the words it spells are those of the scan. -/
theorem scan_unique (text : String) :
    (∃! spans, Segmentation text.toList 0 spans) ∧
      ∀ ws, Spells text ws ↔ ws = scan text := by
  obtain ⟨spans, hscan, huniq⟩ := segmentation_iff_eq text.toList none 0 text.toList rfl rfl
  refine ⟨⟨spans, (huniq spans).mpr rfl, fun spans' h => (huniq spans').mp h⟩, fun ws => ?_⟩
  constructor
  · rintro ⟨spans', h, rfl⟩
    rw [(huniq spans').mp h, scan, hscan]
  · rintro rfl
    exact ⟨spans, (huniq spans).mpr rfl, hscan⟩

end WordMachine.Word
