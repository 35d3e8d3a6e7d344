import Mathlib.Data.List.TakeWhile
import WordMachine.Proofs.Classified
import WordMachine.Proofs.Grammar
import WordMachine.Proofs.Inclusion

/-!
# Kinds of words and kinds of tokens

A word has its kind from its first character. A token has its kind from the whole text that the word shows:
numerals first, then opening marks, then a は at the end. The two rules are different, but on the words of a
text they agree (`tokenOf_of_mem_scan`). For a word with an opening mark that mark settles both kinds. A
declaration shows one of two texts. Any other word starts with no mark, so for neither rule is it a comment or a
literal.

Any text may be classified, also one with 」 in its middle, and then the payload of a literal holds what the
text holds. But a literal that is a word of a text ends at the first 」. So its payload is what stands up to
there (`Delimited.literalBody_tail`): it has no 」, and all its characters stand in the text
(`exists_body_of_literal`).
-/

namespace WordMachine

open Text Word

namespace Token

/-- A text that starts with no mark is neither a literal nor a comment. -/
theorem kind_of_startsPlain {raw : String} {t : Token} {c : Char} {cs : List Char}
    (h : raw.toList = c :: cs) (hc : StartsPlain c) (ht : classify raw = .ok t) :
    t.kind = .number ∨ t.kind = .declaration ∨ t.kind = .identifier := by
  have hhead : raw.toList.head? = some c := by rw [h, List.head?_cons]
  rcases classify_cases ht with ⟨n, -, rfl⟩ | ⟨hopen, -⟩ | ⟨hopen, -⟩ | ⟨-, rfl⟩ | rfl
  · exact .inl rfl
  · exact absurd (Option.some.inj (hhead.symm.trans hopen)) hc.2.1
  · exact absurd (Option.some.inj (hhead.symm.trans hopen)) hc.1
  · exact .inr (.inl rfl)
  · exact .inr (.inr rfl)

end Token

namespace Word

/-! ## The body of a literal -/

/-- What stands between the brackets of a literal whose opening one is at `pos`: all up to the first closing
one, or to the end of the text. -/
def bodyAt (text : String) (pos : Nat) : List Char :=
  (text.toList.drop (pos + 1)).takeWhile (· ≠ literalClose)

theorem not_mem_bodyAt (text : String) (pos : Nat) : literalClose ∉ bodyAt text pos := by
  intro hmem
  simpa using List.mem_takeWhile_imp hmem

/-- The body of a literal word ends where the text has its first closing bracket. -/
theorem Delimited.literalBody_tail {cs after : List Char}
    (h : Delimited literalOpen literalClose (literalOpen :: cs) after) :
    Token.literalBody cs = (cs ++ after).takeWhile (· ≠ literalClose) := by
  obtain ⟨body, hbody, hclosed | ⟨hopen, rfl⟩⟩ := h
  all_goals
    have hall : ∀ c ∈ body, decide (c ≠ literalClose) = true := by
      intro c hc
      rw [decide_eq_true_eq]
      rintro rfl
      exact hbody hc
  · obtain ⟨-, rfl⟩ := List.cons.inj hclosed
    rw [List.append_assoc, List.takeWhile_append_of_pos hall]
    simp [Token.literalBody]
  · obtain ⟨-, rfl⟩ := List.cons.inj hopen
    have hlast : cs.getLast? ≠ some literalClose := fun hlast => hbody (List.mem_of_getLast? hlast)
    rw [List.append_nil, Token.literalBody, if_neg hlast, List.takeWhile_eq_self_iff.mpr hall]

/-! ## The token of a word -/

/-- What the kind of a word of `text` says of its token. -/
structure TokenOf (text : String) (w : Word) (t : Token) : Prop where
  comment_iff : w.kind = .comment ↔ t.kind = .comment
  literal_iff : w.kind = .literal ↔ t.kind = .literal
  declaration : w.kind = .declaration →
    t.kind = .declaration ∧ (t.payload = .text "は" ∨ t.payload = .text "とは")
  plain : w.kind = .plain →
    t.kind = .number ∨ t.kind = .declaration ∨ t.kind = .identifier
  raw : t.raw = w.text
  body : t.kind = .literal →
    text.toList[w.position]? = some literalOpen ∧
      t.payload = .text (String.ofList (bodyAt text w.position)) ∧
      literalClose ∉ bodyAt text w.position

/-- Only a declaration can show other characters than it has. -/
theorem Span.text_word {text : List Char} {sp : Span} (h : sp.kind ≠ .declaration) :
    (sp.word text).text = String.ofList (sp.chars text) := by
  rw [Span.word, if_neg fun hdeclares => h hdeclares.1]

theorem Span.text_word_declaration {text : List Char} {sp : Span}
    (h : sp.chars text = [declarationMark]) :
    (sp.word text).text = "は" ∨ (sp.word text).text = "とは" := by
  simp only [Span.word, h]
  split
  · exact .inr (by decide)
  · exact .inl (by decide)

section Words

variable {text : String} {w : Word} (hw : w ∈ scan text)
include hw

theorem forms_of_mem_scan (hk : w.kind ≠ .declaration) :
    ∃ after, Forms w.kind w.text.toList after ∧
      w.text.toList ++ after = text.toList.drop w.position := by
  obtain ⟨sp, rfl, hle, hforms⟩ := exists_span_of_mem_scan hw
  have hchars : (sp.word text.toList).text.toList = sp.chars text.toList := by
    rw [Span.text_word hk, String.toList_ofList]
  rw [hchars]
  exact ⟨_, hforms, Span.chars_append_drop hle⟩

theorem classify_of_kind_comment (hk : w.kind = .comment) :
    Token.classify w.text = .ok ⟨.comment, .text w.text, w.text⟩ := by
  obtain ⟨after, hforms, -⟩ := forms_of_mem_scan hw (by simp [hk])
  rw [hk] at hforms
  obtain ⟨cs, hcs⟩ := Delimited.head hforms
  exact Token.classify_comment hcs

theorem classify_of_kind_literal (hk : w.kind = .literal) :
    text.toList[w.position]? = some literalOpen ∧
      Token.classify w.text =
        .ok ⟨.literal, .text (String.ofList (bodyAt text w.position)), w.text⟩ := by
  obtain ⟨after, hforms, hsplit⟩ := forms_of_mem_scan hw (by simp [hk])
  rw [hk] at hforms
  obtain ⟨cs, hcs⟩ := Delimited.head hforms
  rw [hcs] at hforms hsplit
  have hbody : bodyAt text w.position = Token.literalBody cs := by
    rw [bodyAt, ← List.drop_drop, ← hsplit, Delimited.literalBody_tail hforms]
    rfl
  rw [Token.classify_of_literalOpen hcs, hbody]
  exact ⟨getElem?_of_drop hsplit.symm, rfl⟩

theorem classify_of_kind_declaration (hk : w.kind = .declaration) :
    (w.text = "は" ∨ w.text = "とは") ∧
      Token.classify w.text = .ok ⟨.declaration, .text w.text, w.text⟩ := by
  obtain ⟨sp, rfl, -, hforms⟩ := exists_span_of_mem_scan hw
  have htext : (sp.word text.toList).text = "は" ∨ (sp.word text.toList).text = "とは" := by
    rw [show sp.kind = .declaration from hk] at hforms
    exact Span.text_word_declaration hforms
  refine ⟨htext, ?_⟩
  rcases htext with heq | heq
  · rw [heq]
    decide +kernel
  · rw [heq]
    decide +kernel

theorem kind_of_kind_plain (hk : w.kind = .plain) {t : Token} (ht : Token.classify w.text = .ok t) :
    t.kind = .number ∨ t.kind = .declaration ∨ t.kind = .identifier := by
  obtain ⟨after, hforms, -⟩ := forms_of_mem_scan hw (by simp [hk])
  rw [hk] at hforms
  obtain ⟨⟨c, cs, hcs, hplain⟩, -, -⟩ := hforms
  exact Token.kind_of_startsPlain hcs hplain ht

/-- Only a plain word can fail to be a token. -/
theorem exists_classify_of_kind_ne_plain (hk : w.kind ≠ .plain) :
    ∃ t, Token.classify w.text = .ok t := by
  cases hkind : w.kind with
  | comment => exact ⟨_, classify_of_kind_comment hw hkind⟩
  | literal => exact ⟨_, (classify_of_kind_literal hw hkind).2⟩
  | declaration => exact ⟨_, (classify_of_kind_declaration hw hkind).2⟩
  | plain => exact absurd hkind hk

theorem tokenOf_of_mem_scan {t : Token} (ht : Token.classify w.text = .ok t) : TokenOf text w t := by
  have hraw := Token.raw_of_classify ht
  cases hk : w.kind with
  | comment =>
    rw [classify_of_kind_comment hw hk] at ht
    cases ht
    exact ⟨by simp [hk], by simp [hk], by simp [hk], by simp [hk], hraw, nofun⟩
  | literal =>
    obtain ⟨hopen, hclassify⟩ := classify_of_kind_literal hw hk
    rw [hclassify] at ht
    cases ht
    exact ⟨by simp [hk], by simp [hk], by simp [hk], by simp [hk], hraw,
      fun _ => ⟨hopen, rfl, not_mem_bodyAt text w.position⟩⟩
  | declaration =>
    obtain ⟨htext, hclassify⟩ := classify_of_kind_declaration hw hk
    rw [hclassify] at ht
    cases ht
    refine ⟨by simp [hk], by simp [hk], fun _ => ⟨rfl, ?_⟩, by simp [hk], hraw, nofun⟩
    exact htext.imp (congrArg Value.text) (congrArg Value.text)
  | plain =>
    have hkind := kind_of_kind_plain hw hk ht
    have hliteral : t.kind ≠ .literal := by rcases hkind with h | h | h <;> simp [h]
    have hcomment : t.kind ≠ .comment := by rcases hkind with h | h | h <;> simp [h]
    exact ⟨by simp [hk, hcomment], by simp [hk, hliteral], by simp [hk], fun _ => hkind, hraw,
      fun h => absurd h hliteral⟩

end Words

end Word

namespace Token

/-- A literal of a text holds no 」, and otherwise only characters of the text. -/
theorem exists_body_of_literal {text : String} {w : Word} {t : Token} (hw : w ∈ scan text)
    (ht : classify w.text = .ok t) (hk : t.kind = .literal) :
    ∃ body : List Char, t.payload = .text (String.ofList body) ∧ literalClose ∉ body ∧
      body ⊆ text.toList := by
  obtain ⟨-, hpayload, hlacks⟩ := (tokenOf_of_mem_scan hw ht).body hk
  refine ⟨bodyAt text w.position, hpayload, hlacks, fun c hc => ?_⟩
  exact List.mem_of_mem_drop ((List.takeWhile_sublist _).subset hc)

/-- A text in brackets that closes none of them is one literal. -/
theorem tokenize_literal {v : String} (h : literalClose ∉ v.toList) :
    tokenize ("「" ++ v ++ "」") = .ok [literal v] := by
  have hchars : ("「" ++ v ++ "」").toList = literalOpen :: (v.toList ++ literalClose :: []) := by
    simp [literalOpen, literalClose]
  have hscan : scan ("「" ++ v ++ "」") = [⟨"「" ++ v ++ "」", 0, .literal⟩] := by
    rw [scan, hchars, scanFrom_literal h, ← hchars, String.ofList_toList, scanFrom_nil]
  rw [tokenize, hscan, List.mapM_cons, List.mapM_nil, classify_literal]
  rfl

end Token

namespace Word

/-- **The kind of a word and the kind of its token agree**, for every word of every text. Only a plain word can
fail to be a token. A text without 」, put in brackets, is one literal with this text as its payload. -/
theorem kinds_agree (text : String) :
    (∀ w ∈ scan text, ∀ t, Token.classify w.text = .ok t → TokenOf text w t) ∧
      (∀ w ∈ scan text, w.kind ≠ .plain → ∃ t, Token.classify w.text = .ok t) ∧
      ∀ v : String, literalClose ∉ v.toList →
        Token.tokenize ("「" ++ v ++ "」") = .ok [Token.literal v] :=
  ⟨fun _ hw _ ht => tokenOf_of_mem_scan hw ht, fun _ hw hk => exists_classify_of_kind_ne_plain hw hk,
    fun _ hv => Token.tokenize_literal hv⟩

/-- A numeral in brackets, brackets in a comment, a plain word that declares, and an open literal that holds
the other marks. -/
def mixedMarks : String :=
  "「12」-3 ※「」※名前は とは「閉じない ※は"

theorem scan_mixedMarks :
    scan mixedMarks =
      [⟨"「12」", 0, .literal⟩, ⟨"-3", 4, .plain⟩, ⟨"※「」※", 7, .comment⟩, ⟨"名前は", 11, .plain⟩,
        ⟨"とは", 16, .declaration⟩, ⟨"「閉じない ※は", 17, .literal⟩] := by
  decide +kernel

theorem kinds_agree_mixedMarks :
    TokenOf mixedMarks ⟨"名前は", 11, .plain⟩ ⟨.declaration, .text "名前は", "名前は"⟩ ∧
      TokenOf mixedMarks ⟨"「閉じない ※は", 17, .literal⟩
        ⟨.literal, .text "閉じない ※は", "「閉じない ※は"⟩ ∧
      (∃ t, Token.classify "とは" = .ok t) ∧
      Token.tokenize "「※ は」" = .ok [Token.literal "※ は"] := by
  obtain ⟨hkinds, htokens, hliteral⟩ := kinds_agree mixedMarks
  rw [scan_mixedMarks] at hkinds htokens
  exact ⟨hkinds _ (by simp) _ (by decide +kernel), hkinds _ (by simp) _ (by decide +kernel),
    htokens ⟨"とは", 16, .declaration⟩ (by simp) nofun, hliteral "※ は" (by decide)⟩

end Word

end WordMachine
