import Mathlib.Tactic.SplitIfs
import WordMachine.Token

/-!
# Classified tokens

Any token can be run, but a text only gives tokens that some word is classified as. `classify_cases` lists
what these can be. The opening mark of a comment or a literal settles its kind, since no numeral starts with a
mark (`classify_comment`, `classify_of_literalOpen`). Their marks tell tokens apart from です and である: a comment
starts with its mark and a declaration ends with its own, so neither ever closes a unit.
-/

namespace WordMachine.Token

/-- Whether some text is classified as the token. -/
def Classified (t : Token) : Prop :=
  ∃ raw, classify raw = .ok t

/-- What a text can be classified as. -/
theorem classify_cases {raw : String} {t : Token} (h : classify raw = .ok t) :
    (∃ n, Numeral.read raw = .ok n ∧ t = ⟨.number, .int n, raw⟩) ∨
      (raw.toList.head? = some Word.literalOpen ∧
        t = ⟨.literal, .text (String.ofList (literalBody raw.toList.tail)), raw⟩) ∨
      (raw.toList.head? = some Word.commentMark ∧ t = ⟨.comment, .text raw, raw⟩) ∨
      (raw.toList.getLast? = some Word.declarationMark ∧ t = ⟨.declaration, .text raw, raw⟩) ∨
      t = ⟨.identifier, .text raw, raw⟩ := by
  unfold classify at h
  simp only at h
  split_ifs at h with hnumeral hliteral hcomment hdeclaration
  · cases hn : Numeral.read raw with
    | error f => rw [hn] at h; cases h
    | ok n =>
      rw [hn] at h
      cases h
      exact .inl ⟨n, rfl, rfl⟩
  · cases h
    exact .inr (.inl ⟨hliteral, rfl⟩)
  · cases h
    exact .inr (.inr (.inl ⟨hcomment, rfl⟩))
  · cases h
    exact .inr (.inr (.inr (.inl ⟨hdeclaration, rfl⟩)))
  · cases h
    exact .inr (.inr (.inr (.inr rfl)))

theorem raw_of_classify {raw : String} {t : Token} (ht : classify raw = .ok t) : t.raw = raw := by
  rcases classify_cases ht with ⟨n, -, rfl⟩ | ⟨-, rfl⟩ | ⟨-, rfl⟩ | ⟨-, rfl⟩ | rfl
  all_goals rfl

/-! ## Texts that start with a mark -/

theorem isNumeral_cons_eq_false {c : Char} (hdigit : isNumeralDigit c = false) (hminus : c ≠ '-')
    (cs : List Char) : isNumeral (c :: cs) = false := by
  simp [isNumeral, isDigitRun, hdigit, hminus]

theorem classify_comment {raw : String} {cs : List Char} (h : raw.toList = Word.commentMark :: cs) :
    classify raw = .ok ⟨.comment, .text raw, raw⟩ := by
  have hnumeral : isNumeral raw.toList = false := by
    rw [h]
    exact isNumeral_cons_eq_false (by decide) (by decide) cs
  have hmarks : Word.commentMark ≠ Word.literalOpen := by decide
  simp only [classify, hnumeral]
  simp [h, hmarks]

theorem classify_of_literalOpen {raw : String} {cs : List Char}
    (h : raw.toList = Word.literalOpen :: cs) :
    classify raw = .ok ⟨.literal, .text (String.ofList (literalBody cs)), raw⟩ := by
  have hnumeral : isNumeral raw.toList = false := by
    rw [h]
    exact isNumeral_cons_eq_false (by decide) (by decide) cs
  simp only [classify, hnumeral]
  simp [h]

/-! ## Names -/

/-- What a text is classified as has a text for its name. -/
theorem Classified.exists_name_eq {t : Token} (h : t.Classified) : ∃ name, t.name = .text name := by
  obtain ⟨raw, hraw⟩ := h
  rcases classify_cases hraw with ⟨n, -, rfl⟩ | ⟨-, rfl⟩ | ⟨-, rfl⟩ | ⟨-, rfl⟩ | rfl
  · exact ⟨raw, rfl⟩
  · exact ⟨_, rfl⟩
  · exact ⟨raw, rfl⟩
  · exact ⟨raw, rfl⟩
  · exact ⟨raw, rfl⟩

/-- A text that starts like a comment or ends like a declaration is neither です nor である. -/
theorem not_mem_closerNames {raw : String}
    (h : raw.toList.head? = some Word.commentMark ∨
      raw.toList.getLast? = some Word.declarationMark) : Value.text raw ∉ closerNames := by
  intro hmem
  have hcases : raw = "です" ∨ raw = "である" := by simpa [closerNames] using hmem
  rcases hcases with rfl | rfl
  · revert h
    decide
  · revert h
    decide

/-- A classified comment or declaration closes no unit. -/
theorem isCloser_eq_false {t : Token} (h : t.Classified)
    (hk : t.kind = .comment ∨ t.kind = .declaration) : t.isCloser = false := by
  obtain ⟨raw, hraw⟩ := h
  rcases classify_cases hraw with ⟨n, -, rfl⟩ | ⟨-, rfl⟩ | ⟨hhead, rfl⟩ | ⟨hlast, rfl⟩ | rfl
  · simp at hk
  · simp at hk
  · simpa [isCloser, isConstant, name] using not_mem_closerNames (.inl hhead)
  · simpa [isCloser, isConstant, name] using not_mem_closerNames (.inr hlast)
  · simp at hk

end WordMachine.Token
