import Mathlib.Data.List.TakeWhile
import Mathlib.Tactic.SplitIfs
import WordMachine.Proofs.Lexeme
import WordMachine.Token

/-!
# Numerals in program texts

A word is classified as a number if it is a run of digits, ASCII or full-width, behind an optional minus
sign. `Numeral.read` takes much more than that, but of such a word it makes what one expects: all its
digits are narrowed to ASCII ones, the run is read to its end, and only its length can go wrong
(`Numeral.read_digits`). So a word that cannot be classified is a run of more than `digitLimit` digits, and
nothing else (`Token.classify_eq_error_iff`). A text that is such a run, of whatever length, is a single word
(`Token.IsRun.scan_eq`).
-/

namespace WordMachine

open Text Word

/-- A character whose code lies in a range that no white space is in. -/
theorem Text.isSpace_of_outside {c : Char} {low high : Nat} (hlow : low ≤ c.toNat)
    (hhigh : c.toNat ≤ high) (h : ∀ r ∈ spaceRanges, r.2 < low ∨ high < r.1) : isSpace c = false := by
  rw [Bool.eq_false_iff]
  intro hspace
  obtain ⟨r, hr, hfrom, hto⟩ := inRanges_iff.mp hspace
  rcases h r hr with hbelow | habove
  · omega
  · omega

namespace Numeral

open Token

/-! ## Digits -/

def IsAsciiDigit (c : Char) : Prop :=
  0x30 ≤ c.toNat ∧ c.toNat ≤ 0x39

theorem isAsciiDigit_narrowDigit {c : Char} (h : isNumeralDigit c = true) :
    IsAsciiDigit (narrowDigit c) := by
  simp only [isNumeralDigit, Bool.or_eq_true, Bool.and_eq_true, decide_eq_true_eq] at h
  unfold narrowDigit IsAsciiDigit
  split_ifs with hwide
  · have hvalid : (c.toNat - 0xFEE0).isValidChar := by
      left
      omega
    have hnarrow : (Char.ofNat (c.toNat - 0xFEE0)).toNat = c.toNat - 0xFEE0 := by
      rw [Char.ofNat, dif_pos hvalid]
      rfl
    omega
  · omega

namespace IsAsciiDigit

variable {c : Char} (h : IsAsciiDigit c)
include h

theorem isBodyChar : Numeral.isBodyChar c = true := by
  obtain ⟨hlow, hhigh⟩ := h
  have hfound : decimalZeros.find? (fun z => z ≤ c.toNat && c.toNat ≤ z + 9) = some 0x30 := by
    rw [decimalZeros, List.find?_cons_of_pos]
    simp only [Bool.and_eq_true, decide_eq_true_eq]
    omega
  simp [Numeral.isBodyChar, isDecimalDigit, digitValue?, hfound]

theorem isPadding : Numeral.isPadding c = false := by
  have hspace : isSpace c = false := isSpace_of_outside h.1 h.2 (by decide)
  simp [Numeral.isPadding, hspace]

theorem ne_of_toNat {d : Char} (hd : d.toNat < 0x30 ∨ 0x39 < d.toNat) : c ≠ d := by
  rintro rfl
  obtain ⟨hlow, hhigh⟩ := h
  omega

end IsAsciiDigit

/-! ## Runs of digits behind a sign -/

/-- A minus sign for a negative number, and nothing for any other. -/
def sign (negative : Bool) : List Char :=
  if negative then ['-'] else []

section Run

variable {ds : List Char} (hd : ∀ c ∈ ds, IsAsciiDigit c)
include hd

theorem takeWhile_isBodyChar : ds.takeWhile isBodyChar = ds :=
  List.takeWhile_eq_self_iff.mpr fun c hc => (hd c hc).isBodyChar

theorem dropWhile_isBodyChar : ds.dropWhile isBodyChar = [] :=
  List.dropWhile_eq_nil_iff.mpr fun c hc => (hd c hc).isBodyChar

theorem filter_ne_underscore : ds.filter (· != '_') = ds := by
  apply List.filter_eq_self.mpr
  intro c hc
  have hne : c ≠ '_' := (hd c hc).ne_of_toNat (by decide)
  simpa using hne

theorem groupedAfterDigit_digits : groupedAfterDigit ds = true := by
  induction ds with
  | nil => rfl
  | cons c ds ih =>
    have hne : c ≠ '_' := (hd c (by simp)).ne_of_toNat (by decide)
    rw [groupedAfterDigit.eq_def]
    simp only [if_neg hne]
    exact ih fun d hmem => hd d (by simp [hmem])

theorem grouped_digits (hne : ds ≠ []) : grouped ds = true := by
  obtain ⟨c, cs, rfl⟩ := List.exists_cons_of_ne_nil hne
  have hc : c ≠ '_' := (hd c (by simp)).ne_of_toNat (by decide)
  rw [grouped, groupedAfterDigit_digits fun d hmem => hd d (by simp [hmem])]
  simpa using hc

/-- No padding stands in front of the sign or of the first digit. -/
theorem dropWhile_isPadding (negative : Bool) (hne : ds ≠ []) :
    (sign negative ++ ds).dropWhile isPadding = sign negative ++ ds := by
  obtain ⟨c, cs, rfl⟩ := List.exists_cons_of_ne_nil hne
  have hc := (hd c (by simp)).isPadding
  cases negative with
  | false => simp [sign, hc]
  | true =>
    have hminus : isPadding '-' = false := by decide
    simp [sign, hminus]

theorem splitSign_digits (negative : Bool) : splitSign (sign negative ++ ds) = (negative, ds) := by
  cases negative with
  | true => rfl
  | false =>
    rw [sign, if_neg (by decide), List.nil_append]
    unfold splitSign
    split
    · exact absurd rfl ((hd '-' (by simp)).ne_of_toNat (by decide))
    · exact absurd rfl ((hd '+' (by simp)).ne_of_toNat (by decide))
    · rfl

theorem readNarrow_digits (negative : Bool) (hne : ds ≠ []) :
    readNarrow (sign negative ++ ds) =
      if digitLimit < ds.length then .error (.numeralTooLong ds.length)
      else .ok (signed negative (digitsValue ds)) := by
  unfold readNarrow
  rw [dropWhile_isPadding hd negative hne, splitSign_digits hd negative]
  simp only [takeWhile_isBodyChar hd, dropWhile_isBodyChar hd, filter_ne_underscore hd,
    grouped_digits hd hne]
  simp

end Run

theorem map_narrowDigit_sign (negative : Bool) : (sign negative).map narrowDigit = sign negative := by
  cases negative <;> decide

/-- A run of digits behind an optional minus sign is read to its end: it is too long, or its value is that of
its digits. -/
theorem read_digits {raw : String} {negative : Bool} {ds : List Char}
    (hraw : raw.toList = sign negative ++ ds) (hne : ds ≠ [])
    (hd : ∀ c ∈ ds, isNumeralDigit c = true) :
    read raw =
      if digitLimit < ds.length then .error (.numeralTooLong ds.length)
      else .ok (signed negative (digitsValue (ds.map narrowDigit))) := by
  have hascii : ∀ c ∈ ds.map narrowDigit, IsAsciiDigit c := by
    intro c hc
    obtain ⟨d, hmem, rfl⟩ := List.mem_map.mp hc
    exact isAsciiDigit_narrowDigit (hd d hmem)
  rw [read, hraw, List.map_append, map_narrowDigit_sign,
    readNarrow_digits hascii negative (by simpa using hne), List.length_map]

end Numeral

/-! ## Words that cannot be classified -/

namespace Token

open Numeral

/-- The digits of a numeral and its sign. -/
structure IsRun (cs : List Char) (negative : Bool) (ds : List Char) : Prop where
  spelt : cs = sign negative ++ ds
  nonempty : ds ≠ []
  digits : ∀ c ∈ ds, isNumeralDigit c = true

theorem isDigitRun_iff {ds : List Char} :
    isDigitRun ds = true ↔ ds ≠ [] ∧ ∀ c ∈ ds, isNumeralDigit c = true := by
  simp [isDigitRun]

theorem isNumeral_iff {cs : List Char} :
    isNumeral cs = true ↔ ∃ negative ds, IsRun cs negative ds := by
  constructor
  · intro h
    cases cs with
    | nil => cases h
    | cons c cs =>
      rw [isNumeral] at h
      split_ifs at h with hminus
      · obtain ⟨hne, hd⟩ := isDigitRun_iff.mp h
        exact ⟨true, cs, by rw [hminus]; rfl, hne, hd⟩
      · obtain ⟨hne, hd⟩ := isDigitRun_iff.mp h
        exact ⟨false, c :: cs, rfl, hne, hd⟩
  · rintro ⟨negative, ds, rfl, hne, hd⟩
    have hrun := isDigitRun_iff.mpr ⟨hne, hd⟩
    cases negative with
    | true => exact hrun
    | false =>
      obtain ⟨c, cs, rfl⟩ := List.exists_cons_of_ne_nil hne
      have hc : c ≠ '-' := by
        rintro rfl
        exact absurd (hd '-' (by simp)) (by decide)
      rw [sign, if_neg (by decide), List.nil_append, isNumeral, if_neg hc]
      exact hrun

/-- What is no numeral is classified, and not as a number. -/
theorem exists_classify_of_not_isNumeral {raw : String} (h : ¬ isNumeral raw.toList = true) :
    ∃ t, classify raw = .ok t ∧ t.kind ≠ .number := by
  unfold classify
  simp only [if_neg h]
  split_ifs
  all_goals exact ⟨_, rfl, nofun⟩

/-- A numeral is a number, unless it has too many digits. -/
theorem IsRun.classify_eq {raw : String} {negative : Bool} {ds : List Char}
    (h : IsRun raw.toList negative ds) :
    classify raw =
      if digitLimit < ds.length then .error (.numeralTooLong ds.length)
      else .ok ⟨.number, .int (signed negative (digitsValue (ds.map narrowDigit))), raw⟩ := by
  unfold classify
  simp only
  rw [if_pos (isNumeral_iff.mpr ⟨negative, ds, h⟩), read_digits h.spelt h.nonempty h.digits]
  split
  · rfl
  · rfl

/-- A word cannot be classified exactly if it is a numeral of too many digits, and the fault counts them. -/
theorem classify_eq_error_iff {raw : String} {f : Fault} :
    classify raw = .error f ↔
      ∃ negative ds, IsRun raw.toList negative ds ∧ digitLimit < ds.length ∧
        f = .numeralTooLong ds.length := by
  constructor
  · intro h
    have hnumeral : isNumeral raw.toList = true := by
      by_contra hnot
      obtain ⟨t, ht, -⟩ := exists_classify_of_not_isNumeral hnot
      rw [ht] at h
      cases h
    obtain ⟨negative, ds, hrun⟩ := isNumeral_iff.mp hnumeral
    rw [hrun.classify_eq] at h
    refine ⟨negative, ds, hrun, ?_⟩
    split_ifs at h with hlong
    cases h
    exact ⟨hlong, rfl⟩
  · rintro ⟨negative, ds, hrun, hlong, rfl⟩
    rw [hrun.classify_eq, if_pos hlong]

/-! ## Texts that are numerals -/

theorem ne_of_isNumeralDigit {c d : Char} (hc : isNumeralDigit c = true)
    (hd : isNumeralDigit d = false) : c ≠ d := by
  rintro rfl
  rw [hc] at hd
  cases hd

theorem isBlank_of_isNumeralDigit {c : Char} (h : isNumeralDigit c = true) : isBlank c = false := by
  have hcode : 0x30 ≤ c.toNat ∧ c.toNat ≤ 0x39 ∨ 0xFF10 ≤ c.toNat ∧ c.toNat ≤ 0xFF19 := by
    simpa [isNumeralDigit] using h
  have hspace : isSpace c = false := by
    rcases hcode with ⟨hlow, hhigh⟩ | ⟨hlow, hhigh⟩
    · exact isSpace_of_outside hlow hhigh (by decide)
    · exact isSpace_of_outside hlow hhigh (by decide)
  have hseparator : isSeparator c = false := by
    simp [isSeparator, ne_of_isNumeralDigit (d := 'を') h (by decide),
      ne_of_isNumeralDigit (d := aliasParticle) h (by decide),
      ne_of_isNumeralDigit (d := '、') h (by decide), ne_of_isNumeralDigit (d := '。') h (by decide)]
  rw [isBlank, hspace, hseparator]
  rfl

theorem startsPlain_of_isNumeralDigit {c : Char} (h : isNumeralDigit c = true) : StartsPlain c :=
  ⟨ne_of_isNumeralDigit h (by decide), ne_of_isNumeralDigit h (by decide),
    ne_of_isNumeralDigit h (by decide)⟩

theorem isRun_replicate {c : Char} (hc : isNumeralDigit c = true) {k : Nat} (hk : k ≠ 0) :
    IsRun (String.ofList (List.replicate k c)).toList false (List.replicate k c) where
  spelt := String.toList_ofList
  nonempty := by simpa using hk
  digits d hd := List.eq_of_mem_replicate hd ▸ hc

/-- A text that is a numeral is one word. -/
theorem IsRun.scan_eq {text : String} {negative : Bool} {ds : List Char}
    (h : IsRun text.toList negative ds) : scan text = [⟨text, 0, .plain⟩] := by
  have hblank : ∀ c ∈ text.toList, isBlank c = false := by
    intro c hc
    rw [h.spelt] at hc
    rcases List.mem_append.mp hc with hsign | hdigit
    · obtain rfl : c = '-' := by
        cases negative with
        | true => exact List.mem_singleton.mp hsign
        | false => cases hsign
      decide
    · exact isBlank_of_isNumeralDigit (h.digits c hdigit)
  obtain ⟨c, cs, htext, hc⟩ : ∃ c cs, text.toList = c :: cs ∧ StartsPlain c := by
    cases negative with
    | true => exact ⟨'-', ds, h.spelt, by decide, by decide, by decide⟩
    | false =>
      obtain ⟨d, rest, hds⟩ := List.exists_cons_of_ne_nil h.nonempty
      refine ⟨d, rest, h.spelt.trans hds, startsPlain_of_isNumeralDigit (h.digits d ?_)⟩
      rw [hds]
      exact List.mem_cons_self
  rw [scan, htext, scanFrom_plain hc (htext ▸ hblank), ← htext, String.ofList_toList]

end Token

end WordMachine
