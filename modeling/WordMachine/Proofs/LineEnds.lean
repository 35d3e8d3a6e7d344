import WordMachine.Text.Lines

/-!
# The lines of a text

`HasLines text ls` says what the lines of a text are, and mentions no way to find them: each line is free
of line feeds and carriage returns and is followed by a line feed, by a carriage return and a line feed, or
by a carriage return with no line feed behind it. The last line need not be followed by anything, but then
it is not empty.

Every text has lines in this sense, and only one list of them: the one that `foldNewlines` and `splitLines`
find (`hasLines_iff`). The two overlapping ends, a carriage return alone and one before a line feed, are
told apart by the character behind the carriage return.
-/

namespace WordMachine.Text

/-- A line as such holds no line end. -/
def IsLine (l : List Char) : Prop :=
  '\n' ∉ l ∧ '\x0d' ∉ l

/-- The text consists of these lines with their line ends. -/
inductive HasLines : List Char → List (List Char) → Prop where
  | nil : HasLines [] []
  | unended {l : List Char} (hl : IsLine l) (hne : l ≠ []) : HasLines l [l]
  | feed {l text : List Char} {ls : List (List Char)} (hl : IsLine l) (h : HasLines text ls) :
    HasLines (l ++ '\n' :: text) (l :: ls)
  | returnFeed {l text : List Char} {ls : List (List Char)} (hl : IsLine l) (h : HasLines text ls) :
    HasLines (l ++ '\x0d' :: '\n' :: text) (l :: ls)
  | lone {l text : List Char} {ls : List (List Char)} (hl : IsLine l)
    (hlone : text.head? ≠ some '\n') (h : HasLines text ls) :
    HasLines (l ++ '\x0d' :: text) (l :: ls)

theorem isLine_nil : IsLine [] := by
  simp [IsLine]

theorem IsLine.cons {c : Char} {l : List Char} (h : IsLine l) (hfeed : c ≠ '\n')
    (hreturn : c ≠ '\x0d') : IsLine (c :: l) :=
  ⟨by simp [h.1, Ne.symm hfeed], by simp [h.2, Ne.symm hreturn]⟩

/-! ## Folding and splitting -/

theorem foldNewlines_cons_of_ne {c : Char} (h : c ≠ '\x0d') (cs : List Char) :
    foldNewlines (c :: cs) = c :: foldNewlines cs := by
  rw [foldNewlines, if_neg h]
  rintro cs' hc
  exact absurd hc h

theorem foldNewlines_lone {cs : List Char} (h : cs.head? ≠ some '\n') :
    foldNewlines ('\x0d' :: cs) = '\n' :: foldNewlines cs := by
  rw [foldNewlines, if_pos rfl]
  rintro cs' - rfl
  exact h rfl

theorem foldNewlines_append {l : List Char} (h : '\x0d' ∉ l) (rest : List Char) :
    foldNewlines (l ++ rest) = l ++ foldNewlines rest := by
  induction l with
  | nil => rfl
  | cons c l ih =>
    simp only [List.mem_cons, not_or] at h
    obtain ⟨hc, hl⟩ := h
    rw [List.cons_append, foldNewlines_cons_of_ne (Ne.symm hc), ih hl, List.cons_append]

theorem splitLines_feed {l : List Char} (h : '\n' ∉ l) (rest : List Char) :
    splitLines (l ++ '\n' :: rest) = l :: splitLines rest := by
  induction l with
  | nil => simp [splitLines]
  | cons c l ih =>
    simp only [List.mem_cons, not_or] at h
    obtain ⟨hc, hl⟩ := h
    rw [List.cons_append, splitLines, if_neg (Ne.symm hc), ih hl]

theorem splitLines_unended {l : List Char} (h : '\n' ∉ l) (hne : l ≠ []) : splitLines l = [l] := by
  induction l with
  | nil => exact absurd rfl hne
  | cons c l ih =>
    simp only [List.mem_cons, not_or] at h
    obtain ⟨hc, hl⟩ := h
    rw [splitLines, if_neg (Ne.symm hc)]
    cases l with
    | nil => rfl
    | cons d l => rw [ih hl (List.cons_ne_nil d l)]

/-! ## The lines are found -/

theorem HasLines.splitLines_eq {text : List Char} {ls : List (List Char)} (h : HasLines text ls) :
    splitLines (foldNewlines text) = ls := by
  induction h with
  | nil => rfl
  | @unended l hl hne =>
    have hfold := foldNewlines_append hl.2 []
    rw [List.append_nil, foldNewlines, List.append_nil] at hfold
    rw [hfold, splitLines_unended hl.1 hne]
  | feed hl h ih =>
    rw [foldNewlines_append hl.2, foldNewlines_cons_of_ne (by decide), splitLines_feed hl.1, ih]
  | returnFeed hl h ih =>
    rw [foldNewlines_append hl.2, foldNewlines, splitLines_feed hl.1, ih]
  | lone hl hlone h ih =>
    rw [foldNewlines_append hl.2, foldNewlines_lone hlone, splitLines_feed hl.1, ih]

/-- A character in front of a text belongs to its first line. -/
theorem HasLines.cons {c : Char} {text : List Char} {ls : List (List Char)} (hfeed : c ≠ '\n')
    (hreturn : c ≠ '\x0d') :
    HasLines text ls →
      HasLines (c :: text) (match ls with | [] => [[c]] | l :: ls => (c :: l) :: ls) := by
  intro h
  cases h with
  | nil => exact .unended (isLine_nil.cons hfeed hreturn) (List.cons_ne_nil c [])
  | unended hl hne => exact .unended (hl.cons hfeed hreturn) (List.cons_ne_nil c _)
  | feed hl h => exact .feed (hl.cons hfeed hreturn) h
  | returnFeed hl h => exact .returnFeed (hl.cons hfeed hreturn) h
  | lone hl hlone h => exact .lone (hl.cons hfeed hreturn) hlone h

theorem hasLines_splitLines (text : List Char) : HasLines text (splitLines (foldNewlines text)) := by
  induction text using foldNewlines.induct with
  | case1 => exact .nil
  | case2 cs ih =>
    rw [foldNewlines, splitLines, if_pos rfl]
    exact .returnFeed isLine_nil ih
  | case3 c cs hpair ih =>
    by_cases hreturn : c = '\x0d'
    · subst hreturn
      have hlone : cs.head? ≠ some '\n' := by
        intro hhead
        obtain ⟨rest, rfl⟩ := List.head?_eq_some_iff.mp hhead
        exact hpair rest rfl rfl
      rw [foldNewlines_lone hlone, splitLines, if_pos rfl]
      exact .lone isLine_nil hlone ih
    · rw [foldNewlines_cons_of_ne hreturn, splitLines]
      by_cases hfeed : c = '\n'
      · subst hfeed
        rw [if_pos rfl]
        exact .feed isLine_nil ih
      · rw [if_neg hfeed]
        exact .cons hfeed hreturn ih

/-- A text has exactly the lines that splitting it gives. -/
theorem hasLines_iff {text : List Char} {ls : List (List Char)} :
    HasLines text ls ↔ splitLines (foldNewlines text) = ls := by
  refine ⟨HasLines.splitLines_eq, ?_⟩
  rintro rfl
  exact hasLines_splitLines text

end WordMachine.Text
