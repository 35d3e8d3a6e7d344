import WordMachine.Proofs.Grammar
import WordMachine.Proofs.Pieces
import WordMachine.Proofs.WordByWord

/-!
# Spacing

The words of a text can be set again with other blanks between them. `respaced gap ws` is the text in which
the words `ws` stand with the blanks `gap 0` in front, `gap 1` behind the first word, and so on. It has the
same words again (`map_content_scanFrom`), if the gaps are blank and keep neighbours apart, if nothing
follows a comment or a literal that waits for its closing mark, and if と stands at the end of the gap before
a declaration exactly where the declaration was とは (`Spacing`).

The proof goes word by word. A word of a text is a word by the grammar wherever its neighbours allow it: at the
end of a text, and, if it is closed, before a blank (`Forms.before_blank`). Only the last word can be unclosed
(`isUnclosed_of_mem_dropLast`). So in the new text the scanner takes every word off again, and what it shows
depends on the last character of the gap before it.
-/

namespace WordMachine

open Text

namespace Word

/-! ## Words set with gaps -/

/-- The characters of a word as they stand in a text: a declaration is は there, also where it shows とは. -/
def span (w : Word) : List Char :=
  if w.text = "とは" then [declarationMark] else w.text.toList

/-- What a word is, wherever it stands. -/
def content (w : Word) : String × Kind :=
  (w.text, w.kind)

/-- The words with `gap 0` in front of them, `gap 1` behind the first, and so on. -/
def respaced (gap : Nat → String) : List Word → String
  | [] => gap 0
  | w :: ws => gap 0 ++ (String.ofList w.span ++ respaced (fun i => gap (i + 1)) ws)

/-- Gaps that leave the words what they are. -/
structure Spacing (gap : Nat → String) (ws : List Word) : Prop where
  blank : ∀ i ≤ ws.length, ∀ c ∈ (gap i).toList, isBlank c = true
  /-- Neighbours are kept apart. -/
  apart : ∀ i < ws.length, 0 < i → gap i ≠ ""
  /-- A gap in front of a declaration ends in と where that declaration is とは, and only there. -/
  particle : ∀ i (_ : i < ws.length), ws[i].kind = .declaration →
    ((gap i).toList.getLast? = some aliasParticle ↔ ws[i].text = "とは")
  /-- Nothing follows a comment or a literal that is not closed. -/
  last : lastClosed ws = false → gap ws.length = ""

theorem ofList_alias : String.ofList [aliasParticle, declarationMark] = "とは" := by decide

theorem toList_respaced_cons (gap : Nat → String) (w : Word) (ws : List Word) :
    (respaced gap (w :: ws)).toList =
      (gap 0).toList ++ (w.span ++ (respaced (fun i => gap (i + 1)) ws).toList) := by
  simp [respaced]

/-! ## One word -/

/-- A word by the grammar stays one at the end of a text. -/
theorem Forms.at_end {kind : Kind} {chars after : List Char} (h : Forms kind chars after) :
    Forms kind chars [] := by
  have hdelimited : ∀ opening closing, Delimited opening closing chars after →
      Delimited opening closing chars [] := by
    rintro opening closing ⟨body, hbody, hclosed | ⟨hopen, -⟩⟩
    · exact ⟨body, hbody, .inl hclosed⟩
    · exact ⟨body, hbody, .inr ⟨hopen, rfl⟩⟩
  cases kind with
  | comment => exact hdelimited _ _ h
  | literal => exact hdelimited _ _ h
  | declaration => exact h
  | plain => exact ⟨h.1, h.2.1, .inl rfl⟩

/-- A closed word stays one before a blank. -/
theorem Forms.before_blank {kind : Kind} {chars after : List Char} (h : Forms kind chars after)
    (hclosed : isUnclosed kind chars = false) {b : Char} (hb : isBlank b = true) (rest : List Char) :
    Forms kind chars (b :: rest) := by
  cases kind with
  | comment =>
    obtain ⟨body, hbody, hends | ⟨rfl, -⟩⟩ := h
    · exact ⟨body, hbody, .inl hends⟩
    · have hopen := (isUnclosed_comment body).mpr hbody
      rw [cutAfter_of_not_mem hbody, hclosed] at hopen
      cases hopen
  | literal =>
    obtain ⟨body, hbody, hends | ⟨rfl, -⟩⟩ := h
    · exact ⟨body, hbody, .inl hends⟩
    · have hopen := (isUnclosed_literal body).mpr hbody
      rw [cutAfter_of_not_mem hbody, hclosed] at hopen
      cases hopen
  | declaration => exact h
  | plain => exact ⟨h.1, h.2.1, .inr ⟨b, rest, rfl, hb⟩⟩

/-- A word by the grammar is taken off a text that starts with it. -/
theorem Forms.scanFrom_append {kind : Kind} {chars after : List Char} (h : Forms kind chars after)
    (before : Option Char) (pos : Nat) :
    scanFrom before pos (chars ++ after) =
      ⟨Lexeme.shown before ⟨kind, chars, after⟩, pos, kind⟩ ::
        scanFrom chars.getLast? (pos + chars.length) after := by
  obtain ⟨c, cs, rfl, hc⟩ := h.head
  have hlexeme : lexeme c (cs ++ after) = ⟨kind, c :: cs, after⟩ := h.lexeme_eq rfl
  rw [List.cons_append, scanFrom_cons_of_not_isBlank hc, hlexeme]

/-- No word by the grammar starts with と. -/
theorem Forms.ne_alias {kind : Kind} {chars after : List Char} (h : Forms kind chars after) :
    String.ofList chars ≠ "とは" := by
  obtain ⟨c, cs, rfl, hc⟩ := h.head
  intro heq
  rw [← ofList_alias, String.ofList_inj] at heq
  obtain ⟨rfl, -⟩ := List.cons.inj heq
  rw [isBlank_aliasParticle] at hc
  cases hc

/-! ## The words of a text -/

/-- What a scan gives: characters that are a word by the grammar, and the text とは only where that word
declares. -/
structure Scanned (w : Word) : Prop where
  forms : Forms w.kind w.span []
  declares : w.text = "とは" → w.kind = .declaration

theorem scanned_of_mem_scan {text : String} {w : Word} (hw : w ∈ scan text) : w.Scanned := by
  obtain ⟨sp, rfl, -, hforms⟩ := exists_span_of_mem_scan hw
  by_cases halias : sp.kind = .declaration ∧ 0 < sp.start ∧
      text.toList[sp.start - 1]? = some aliasParticle
  · have htext : (sp.word text.toList).text = "とは" := by
      rw [Span.word, if_pos halias, ofList_alias]
    refine ⟨?_, fun _ => halias.1⟩
    rw [span, if_pos htext, show (sp.word text.toList).kind = .declaration from halias.1]
    rfl
  · have htext : (sp.word text.toList).text = String.ofList (sp.chars text.toList) := by
      rw [Span.word, if_neg halias]
    have hne := hforms.ne_alias
    rw [← htext] at hne
    refine ⟨?_, fun heq => absurd heq hne⟩
    rw [span, if_neg hne, htext, String.toList_ofList]
    exact hforms.at_end

/-- Only the last word of a text can be unclosed. -/
theorem isUnclosed_of_mem_dropLast (before : Option Char) (pos : Nat) (cs : List Char) :
    ∀ w ∈ (scanFrom before pos cs).dropLast, isUnclosed w.kind w.text.toList = false := by
  induction before, pos, cs using scan_induction with
  | nil before pos => simp
  | blank before pos c cs hc ih => rwa [scanFrom_cons_of_isBlank hc]
  | word before pos c cs hc ih =>
    rw [scanFrom_cons_of_not_isBlank hc]
    intro w hw
    have hlater : scanFrom (lexeme c cs).span.getLast? (pos + (lexeme c cs).span.length)
        (lexeme c cs).rest ≠ [] := by
      intro hnil
      rw [hnil] at hw
      cases hw
    rw [List.dropLast_cons_of_ne_nil hlater] at hw
    rcases List.mem_cons.mp hw with rfl | hw
    · rw [isUnclosed_shown, Bool.eq_false_iff]
      intro hopen
      rw [rest_of_isUnclosed hopen, scanFrom_nil] at hlater
      exact hlater rfl
    · exact ih w hw

/-! ## The words of the new text -/

theorem isUnclosed_span {w : Word} (h : w.Scanned) :
    isUnclosed w.kind w.span = isUnclosed w.kind w.text.toList := by
  by_cases htext : w.text = "とは"
  · rw [h.declares htext]
    rfl
  · rw [span, if_neg htext]

theorem Spacing.tail {gap : Nat → String} {w : Word} {ws : List Word} (h : Spacing gap (w :: ws)) :
    Spacing (fun i => gap (i + 1)) ws where
  blank i hi := h.blank (i + 1) (Nat.succ_le_succ hi)
  apart i hi _ := h.apart (i + 1) (Nat.succ_lt_succ hi) (Nat.succ_pos i)
  particle i hi := h.particle (i + 1) (Nat.succ_lt_succ hi)
  last hlast := by
    refine h.last ?_
    rw [lastClosed_cons]
    split
    · next hnil =>
      rw [hnil] at hlast
      cases hlast
    · exact hlast

section Head

variable {gap : Nat → String} {w : Word} {ws : List Word} (h : Spacing gap (w :: ws)) (hw : w.Scanned)
include h hw

/-- In the new text the first word stands as a word by the grammar. -/
theorem Spacing.forms_head
    (hclosed : ∀ v ∈ (w :: ws).dropLast, isUnclosed v.kind v.text.toList = false) :
    Forms w.kind w.span (respaced (fun i => gap (i + 1)) ws).toList := by
  have hblank : ∀ c ∈ (gap 1).toList, isBlank c = true :=
    h.blank 1 (by rw [List.length_cons]; omega)
  cases ws with
  | nil =>
    rw [respaced]
    cases hgap : (gap 1).toList with
    | nil => exact hw.forms
    | cons b bs =>
      -- something follows the last word, so it is closed
      have hlast : isUnclosed w.kind w.span = false := by
        rw [isUnclosed_span hw, Bool.eq_false_iff]
        intro hopen
        have hempty : gap 1 = "" := h.last (by rw [lastClosed_cons, if_pos rfl, hopen]; rfl)
        rw [hempty] at hgap
        cases hgap
      exact hw.forms.before_blank hlast (hblank b (by rw [hgap]; exact List.mem_cons_self)) bs
  | cons v vs =>
    have happart : gap 1 ≠ "" := h.apart 1 (by simp) Nat.one_pos
    obtain ⟨b, bs, hgap⟩ := List.exists_cons_of_ne_nil (mt String.toList_eq_nil_iff.mp happart)
    have hfirst : isUnclosed w.kind w.span = false := by
      rw [isUnclosed_span hw]
      exact hclosed w (by simp)
    rw [toList_respaced_cons, hgap, List.cons_append]
    exact hw.forms.before_blank hfirst (hblank b (by rw [hgap]; exact List.mem_cons_self)) _

/-- And there it shows what it showed. -/
theorem Spacing.shown_head {before : Option Char}
    (hbefore : before = some aliasParticle → gap 0 ≠ "") (after : List Char) :
    Lexeme.shown ((gap 0).toList.getLast?.or before) ⟨w.kind, w.span, after⟩ = w.text := by
  have hparticle : w.kind = .declaration →
      ((gap 0).toList.getLast?.or before = some aliasParticle ↔ w.text = "とは") := by
    intro hk
    have hgap : (gap 0).toList.getLast? = some aliasParticle ↔ w.text = "とは" :=
      h.particle 0 (by simp) hk
    rw [← hgap]
    cases hlast : (gap 0).toList.getLast? with
    | some d => simp
    | none =>
      have hempty : gap 0 = "" := by simpa using hlast
      simpa using fun hb => hbefore hb hempty
  unfold Lexeme.shown
  by_cases htext : w.text = "とは"
  · have hk := hw.declares htext
    rw [if_pos ⟨hk, (hparticle hk).mpr htext⟩, ofList_alias, htext]
  · rw [if_neg fun hshown => htext ((hparticle hshown.1).mp hshown.2), span, if_neg htext,
      String.ofList_toList]

end Head

/-- The words of the new text show what the words showed, in the same order. -/
theorem map_content_scanFrom {gap : Nat → String} {ws : List Word} (h : Spacing gap ws)
    (hws : ∀ w ∈ ws, w.Scanned)
    (hclosed : ∀ w ∈ ws.dropLast, isUnclosed w.kind w.text.toList = false) (before : Option Char)
    (pos : Nat) (hbefore : before = some aliasParticle → ws ≠ [] → gap 0 ≠ "") :
    (scanFrom before pos (respaced gap ws).toList).map content = ws.map content := by
  induction ws generalizing gap before pos with
  | nil =>
    have hblanks := scanFrom_blanks (h.blank 0 (Nat.le_refl 0)) before pos []
    rw [List.append_nil, scanFrom_nil] at hblanks
    rw [respaced, hblanks, List.map_nil]
  | cons w ws ih =>
    have hw := hws w (by simp)
    have hforms := h.forms_head hw hclosed
    have hshown := h.shown_head hw fun hb => hbefore hb (List.cons_ne_nil w ws)
    rw [toList_respaced_cons, scanFrom_blanks (h.blank 0 (Nat.zero_le _)), hforms.scanFrom_append,
      hshown, List.map_cons, List.map_cons]
    congr 1
    refine ih h.tail (fun v hv => hws v (by simp [hv])) ?_ _ _ ?_
    · intro v hv
      have hne : ws ≠ [] := by
        rintro rfl
        cases hv
      exact hclosed v (by rw [List.dropLast_cons_of_ne_nil hne]; exact List.mem_cons_of_mem w hv)
    · intro _ hne
      exact h.apart 1 (by simpa using List.length_pos_iff.mpr hne) Nat.one_pos

/-! ## Single spaces -/

/-- What a word shows and does not have in a text: the と of とは. -/
def particle (w : Word) : String :=
  if w.text = "とは" then "と" else ""

/-- One space before each word but the first, which has `lead` before it. -/
def singleGaps (lead : String) (ws : List Word) (i : Nat) : String :=
  match ws[i]? with
  | none => ""
  | some w => (if i = 0 then lead else " ") ++ w.particle

theorem particle_append_span (w : Word) : w.particle ++ String.ofList w.span = w.text := by
  unfold particle span
  by_cases h : w.text = "とは"
  · rw [if_pos h, if_pos h, h]
    decide
  · rw [if_neg h, if_neg h]
    simp

theorem singleGaps_succ (lead : String) (w : Word) (ws : List Word) :
    (fun i => singleGaps lead (w :: ws) (i + 1)) = singleGaps " " ws := by
  funext i
  simp [singleGaps]

theorem respaced_singleGaps_cons (lead : String) (w : Word) (ws : List Word) :
    respaced (singleGaps lead (w :: ws)) (w :: ws) =
      lead ++ (w.text ++ respaced (singleGaps " " ws) ws) := by
  have hfirst : singleGaps lead (w :: ws) 0 = lead ++ w.particle := rfl
  rw [respaced, singleGaps_succ, hfirst, ← particle_append_span w]
  simp only [String.append_assoc]

/-- With single gaps the words are written with one space between them. -/
theorem respaced_singleGaps (ws : List Word) :
    respaced (singleGaps "" ws) ws = " ".intercalate (ws.map Word.text) := by
  cases ws with
  | nil => rfl
  | cons w ws =>
    rw [respaced_singleGaps_cons, String.empty_append]
    induction ws generalizing w with
    | nil => simp [respaced, singleGaps]
    | cons v vs ih =>
      rw [respaced_singleGaps_cons, ih v, List.map_cons, List.map_cons, List.map_cons,
        String.intercalate_cons_cons, String.append_assoc]

theorem spacing_singleGaps (ws : List Word) : Spacing (singleGaps "" ws) ws where
  blank i _ c hc := by
    unfold singleGaps at hc
    split at hc
    · cases hc
    · rw [String.toList_append] at hc
      rcases List.mem_append.mp hc with hspace | hparticle
      · split at hspace
        · cases hspace
        · obtain rfl : c = ' ' := List.mem_singleton.mp hspace
          decide
      · unfold particle at hparticle
        split at hparticle
        · obtain rfl : c = aliasParticle := List.mem_singleton.mp hparticle
          exact isBlank_aliasParticle
        · cases hparticle
  apart i hi hpos := by
    rw [singleGaps, List.getElem?_eq_getElem hi]
    simp [Nat.ne_of_gt hpos]
  particle i hi _ := by
    simp only [singleGaps, List.getElem?_eq_getElem hi, particle]
    split_ifs <;> simp_all [aliasParticle]
  last _ := by simp [singleGaps]

/-- **Spacing does not matter.** The words of a text, set again with other gaps, are read as the same words and
so as the same tokens. In particular they are, if they are written with single spaces between them. -/
theorem respacing_keeps_words (text : String) :
    (∀ gap, Spacing gap (scan text) →
      (scan (respaced gap (scan text))).map content = (scan text).map content ∧
        Token.tokenize (respaced gap (scan text)) = Token.tokenize text) ∧
      (scan (" ".intercalate ((scan text).map Word.text))).map content = (scan text).map content ∧
      Token.tokenize (" ".intercalate ((scan text).map Word.text)) = Token.tokenize text := by
  have htokens : ∀ text', (scan text').map content = (scan text).map content →
      Token.tokenize text' = Token.tokenize text := by
    intro text' h
    have htexts := congrArg (List.map Prod.fst) h
    rw [List.map_map, List.map_map] at htexts
    rw [tokenize_eq_mapM_text, tokenize_eq_mapM_text]
    exact congrArg (List.mapM Token.classify) htexts
  have hspaced : ∀ gap, Spacing gap (scan text) →
      (scan (respaced gap (scan text))).map content = (scan text).map content := fun gap h =>
    map_content_scanFrom h (fun _ => scanned_of_mem_scan) (isUnclosed_of_mem_dropLast none 0 _) none 0
      nofun
  have hprinted := hspaced _ (spacing_singleGaps (scan text))
  rw [respaced_singleGaps] at hprinted
  exact ⟨fun gap h => ⟨hspaced gap h, htokens _ (hspaced gap h)⟩, hprinted, htokens _ hprinted⟩

/-- A definition and a comment that is not closed. -/
def definitionAndComment : String :=
  "「あ い」とは 名前は です ※終"

/-- Gaps of all sorts, and one と more before とは. -/
def mixedGaps (i : Nat) : String :=
  ["\n", "、を と", "　", "をと", "。", ""].getD i ""

theorem scan_definitionAndComment :
    scan definitionAndComment =
      [⟨"「あ い」", 0, .literal⟩, ⟨"とは", 6, .declaration⟩, ⟨"名前は", 8, .plain⟩,
        ⟨"です", 12, .plain⟩, ⟨"※終", 15, .comment⟩] := by
  decide +kernel

theorem spacing_mixedGaps : Spacing mixedGaps (scan definitionAndComment) := by
  rw [scan_definitionAndComment]
  have hblank : ∀ i ≤ 5, (mixedGaps i).toList.all isBlank = true := by decide
  exact ⟨fun i hi => List.all_eq_true.mp (hblank i hi), by decide, by decide, by decide⟩

theorem respacing_keeps_words_mixed :
    Spacing mixedGaps (scan definitionAndComment) ∧
      (scan "\n「あ い」、を とは　名前はをとです。※終").map content =
        [("「あ い」", .literal), ("とは", .declaration), ("名前は", .plain), ("です", .plain),
          ("※終", .comment)] := by
  have hkept := ((respacing_keeps_words definitionAndComment).1 mixedGaps spacing_mixedGaps).1
  have hset : respaced mixedGaps (scan definitionAndComment) =
      "\n「あ い」、を とは　名前はをとです。※終" := by
    rw [scan_definitionAndComment]
    decide
  rw [hset, scan_definitionAndComment] at hkept
  exact ⟨spacing_mixedGaps, hkept⟩

end Word

end WordMachine
