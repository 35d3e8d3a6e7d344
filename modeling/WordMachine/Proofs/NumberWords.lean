import Mathlib.Data.List.Forall2
import Mathlib.Data.Nat.Digits.Defs
import WordMachine.Machine.Execute
import WordMachine.Proofs.Numerals
import WordMachine.Proofs.Outcome

/-!
# Words that are numbers

`Spelling raw negative ds` says that a text is an optional minus sign and then one or more digits worth `ds`.
What a digit is and what it is worth is read off a table of twenty characters, so this mentions neither the
classifier nor `Numeral.read`, which takes digits of many more systems, signs, underscores and white space.

A text is taken for a number exactly if it has a spelling (`takenForNumber_iff`). Then only its length can keep
it from being one, and its value is the base ten value of the digits (`classify_of_spelling`). The decimal text
of an integer has a spelling that is worth the integer (`exists_spelling_toString`). So what 書く writes and 繋ぐ
renders is read back as the same number.
-/

namespace WordMachine

open Word

namespace Numeral

open Token Text

/-! ## Digits -/

/-- The digits that a number can be written with, and what each of them is worth. -/
def digitTable : List (Char × Nat) :=
  "0123456789".toList.zipIdx ++ "０１２３４５６７８９".toList.zipIdx

theorem value_of_mem_digitTable {c : Char} {d : Nat} (h : (c, d) ∈ digitTable) :
    isNumeralDigit c = true ∧ digitValue? (narrowDigit c) = some d := by
  have hall : ∀ p ∈ digitTable,
      isNumeralDigit p.1 = true ∧ digitValue? (narrowDigit p.1) = some p.2 := by
    decide
  exact hall (c, d) h

/-- The table is complete. -/
theorem exists_mem_digitTable {c : Char} (h : isNumeralDigit c = true) :
    ∃ d, (c, d) ∈ digitTable := by
  have hascii : ∀ d < 10, (Char.ofNat (0x30 + d), d) ∈ digitTable := by decide
  have hwide : ∀ d < 10, (Char.ofNat (0xFF10 + d), d) ∈ digitTable := by decide
  simp only [isNumeralDigit, Bool.or_eq_true, Bool.and_eq_true, decide_eq_true_eq] at h
  rcases h with ⟨hlow, hhigh⟩ | ⟨hlow, hhigh⟩
  · refine ⟨c.toNat - 0x30, ?_⟩
    have hmem := hascii (c.toNat - 0x30) (by omega)
    rwa [Nat.add_sub_cancel' hlow, Char.ofNat_toNat] at hmem
  · refine ⟨c.toNat - 0xFF10, ?_⟩
    have hmem := hwide (c.toNat - 0xFF10) (by omega)
    rwa [Nat.add_sub_cancel' hlow, Char.ofNat_toNat] at hmem

/-- The characters are digits of these worths. -/
def Digits : List Char → List Nat → Prop :=
  List.Forall₂ fun c d => (c, d) ∈ digitTable

theorem Digits.isNumeralDigit {cs : List Char} {ds : List Nat} (h : Digits cs ds) :
    ∀ c ∈ cs, Token.isNumeralDigit c = true := by
  induction h with
  | nil => nofun
  | cons hc _ ih =>
    intro e he
    rcases List.mem_cons.mp he with rfl | he
    · exact (value_of_mem_digitTable hc).1
    · exact ih e he

theorem exists_digits {cs : List Char} (h : ∀ c ∈ cs, Token.isNumeralDigit c = true) :
    ∃ ds, Digits cs ds := by
  induction cs with
  | nil => exact ⟨[], .nil⟩
  | cons c cs ih =>
    obtain ⟨d, hd⟩ := exists_mem_digitTable (h c (by simp))
    obtain ⟨ds, hds⟩ := ih fun e he => h e (by simp [he])
    exact ⟨d :: ds, .cons hd hds⟩

/-- Full-width digits count as ASCII ones, and the value is the one in base ten. -/
theorem Digits.digitsValue_eq {cs : List Char} {ds : List Nat} (h : Digits cs ds) :
    digitsValue (cs.map narrowDigit) = Nat.ofDigits 10 ds.reverse := by
  have hfold : ∀ n, cs.foldl (fun n c => 10 * n + (digitValue? (narrowDigit c)).getD 0) n =
      ds.foldl (fun n d => d + 10 * n) n := by
    induction h with
    | nil => exact fun _ => rfl
    | cons hc _ ih =>
      intro n
      rw [List.foldl_cons, List.foldl_cons, (value_of_mem_digitTable hc).2, Option.getD_some,
        Nat.add_comm, ih]
  rw [Nat.ofDigits_eq_foldr, List.foldr_reverse, digitsValue, List.foldl_map]
  exact hfold 0

/-! ## Spellings -/

/-- The text is a minus sign or nothing, and then digits worth `ds`, the highest first. -/
structure Spelling (raw : String) (negative : Bool) (ds : List Nat) : Prop where
  nonempty : ds ≠ []
  spelt : ∃ cs, raw.toList = sign negative ++ cs ∧ Digits cs ds

theorem Spelling.exists_isRun {raw : String} {negative : Bool} {ds : List Nat}
    (h : Spelling raw negative ds) :
    ∃ cs, IsRun raw.toList negative cs ∧ Digits cs ds := by
  obtain ⟨hne, cs, hraw, hcs⟩ := h
  refine ⟨cs, ⟨hraw, ?_, hcs.isNumeralDigit⟩, hcs⟩
  rintro rfl
  cases hcs
  exact hne rfl

theorem exists_spelling {raw : String} {negative : Bool} {cs : List Char}
    (h : IsRun raw.toList negative cs) : ∃ ds, Spelling raw negative ds := by
  obtain ⟨ds, hds⟩ := exists_digits h.digits
  refine ⟨ds, ?_, cs, h.spelt, hds⟩
  rintro rfl
  cases hds
  exact h.nonempty rfl

/-! ## Decimal text -/

theorem exists_digits_toDigits (k : Nat) :
    ∃ ds, Digits (Nat.toDigits 10 k) ds ∧ Nat.ofDigits 10 ds.reverse = k := by
  have hdigit : ∀ d < 10, (Nat.digitChar d, d) ∈ digitTable := by decide
  induction k using Nat.strong_induction_on with
  | _ k ih =>
    rw [Nat.toDigits_eq_if (by decide)]
    split
    · next hk => exact ⟨[k], .cons (hdigit k hk) .nil, by simp⟩
    · next hk =>
      -- the digits of `k / 10`, and then the last one
      obtain ⟨ds, hds, hvalue⟩ := ih (k / 10) (by omega)
      refine ⟨ds ++ [k % 10], ?_, ?_⟩
      · exact List.rel_append hds (.cons (hdigit _ (Nat.mod_lt k (by decide))) .nil)
      · rw [List.reverse_append, List.reverse_singleton, List.singleton_append, Nat.ofDigits_cons,
          hvalue, Nat.mod_add_div]

theorem toString_eq_decimal (n : Int) : toString n = String.ofList (decimal n) := by
  cases n with
  | ofNat m =>
    show m.repr = _
    rw [Nat.repr_eq_ofList_toDigits]
    rfl
  | negSucc m =>
    show "-" ++ m.succ.repr = _
    rw [Nat.repr_eq_ofList_toDigits]
    apply String.toList_inj.mp
    simp [decimal]

theorem decimal_eq (n : Int) : decimal n = sign (n < 0) ++ Nat.toDigits 10 n.natAbs := by
  unfold decimal sign
  simp only [decide_eq_true_eq]
  split
  · rfl
  · rfl

theorem signed_natAbs (n : Int) : signed (n < 0) n.natAbs = n := by
  simp only [signed, decide_eq_true_eq]
  split <;> omega

theorem exists_spelling_toString (n : Int) :
    ∃ ds, Spelling (toString n) (n < 0) ds ∧ ds.length = (Nat.toDigits 10 n.natAbs).length ∧
      signed (n < 0) (Nat.ofDigits 10 ds.reverse) = n := by
  obtain ⟨ds, hds, hvalue⟩ := exists_digits_toDigits n.natAbs
  have hlength : ds.length = (Nat.toDigits 10 n.natAbs).length := hds.length_eq.symm
  refine ⟨ds, ⟨?_, Nat.toDigits 10 n.natAbs, ?_, hds⟩, hlength, ?_⟩
  · rintro rfl
    exact Nat.toDigits_ne_nil (List.forall₂_nil_right_iff.mp hds)
  · rw [toString_eq_decimal, String.toList_ofList, decimal_eq]
  · rw [hvalue, signed_natAbs]

/-- An integer below the limit is written as its decimal text. -/
theorem write_eq_ok {n : Int} (h : n.natAbs < 10 ^ digitLimit) : write n = .ok (toString n) := by
  have hshort := (Nat.length_toDigits_le_iff (by decide) (by decide)).mpr h
  rw [write, if_neg (Nat.not_lt.mpr hshort), toString_eq_decimal]

end Numeral

/-! ## The token of a number -/

namespace Token

open Numeral

/-- Whether a text is taken for a number: its token is one, or reading it fails. -/
def TakenForNumber (raw : String) : Prop :=
  (∃ t, classify raw = .ok t ∧ t.kind = .number) ∨ ∃ f, classify raw = .error f

theorem classify_of_spelling {raw : String} {negative : Bool} {ds : List Nat}
    (h : Spelling raw negative ds) :
    classify raw =
      if digitLimit < ds.length then .error (.numeralTooLong ds.length)
      else .ok ⟨.number, .int (signed negative (Nat.ofDigits 10 ds.reverse)), raw⟩ := by
  obtain ⟨cs, hrun, hcs⟩ := h.exists_isRun
  have hlength : cs.length = ds.length := hcs.length_eq
  rw [hrun.classify_eq, hcs.digitsValue_eq, hlength]

theorem takenForNumber_iff {raw : String} :
    TakenForNumber raw ↔ ∃ negative ds, Spelling raw negative ds := by
  constructor
  · intro htaken
    have hnumeral : isNumeral raw.toList = true := by
      by_contra hnot
      obtain ⟨u, hu, hne⟩ := exists_classify_of_not_isNumeral hnot
      rcases htaken with ⟨t, ht, hk⟩ | ⟨f, hf⟩
      · rw [hu] at ht
        cases ht
        exact hne hk
      · rw [hu] at hf
        cases hf
    obtain ⟨negative, cs, hrun⟩ := isNumeral_iff.mp hnumeral
    exact ⟨negative, exists_spelling hrun⟩
  · rintro ⟨negative, ds, h⟩
    have hclassify := classify_of_spelling h
    split_ifs at hclassify
    · exact .inr ⟨_, hclassify⟩
    · exact .inl ⟨_, hclassify, rfl⟩

-- digits of other systems, a plus sign, underscores and line ends, all of which `Numeral.read` takes
example : ∀ raw ∈ ["٣", "+1", "1_0", "1\n"], classify raw = .ok (identifier raw) := by decide +kernel

/-- The decimal text of an integer is one word, and its token is the integer. -/
theorem tokenize_toString {n : Int} (h : n.natAbs < 10 ^ digitLimit) :
    tokenize (toString n) = .ok [⟨.number, .int n, toString n⟩] := by
  obtain ⟨ds, hspelling, hlength, hvalue⟩ := exists_spelling_toString n
  obtain ⟨cs, hrun, -⟩ := hspelling.exists_isRun
  have hshort : ¬ digitLimit < ds.length := by
    rw [hlength, Nat.not_lt]
    exact (Nat.length_toDigits_le_iff (by decide) (by decide)).mpr h
  have hclassify : classify (toString n) = .ok ⟨.number, .int n, toString n⟩ := by
    rw [classify_of_spelling hspelling, if_neg hshort, hvalue]
  rw [tokenize, hrun.scan_eq, List.mapM_cons, List.mapM_nil, hclassify]
  rfl

end Token

/-! ## The words that show a number -/

namespace Builtin

variable {Op : Type} (files : Files) (call : Act.Call Op) (s : State Op) (vs : List Value)

theorem execute_write {v : Value} {text : String} (h : v.written = .ok text) :
    write.execute files call { s with stack := v :: vs } =
      ⟨.ok (), { s with stack := vs }, text, []⟩ := by
  rw [execute, Act.bind_apply_ok (Act.pop_apply_of_cons rfl), h]
  simp [Act.orFault, Act.write_apply]

/-- A function of two values is applied to the two on top. -/
theorem applyTop_two (f : Value → Value → Except Failure Reply) {reply : Reply} {top lower : Value}
    (h : f top lower = .ok reply) :
    (Act.applyTop 2 f : Act Op Reply) { s with stack := top :: lower :: vs } =
      ⟨.ok reply, { s with stack := vs }, "", []⟩ := by
  show (Act.pop >>= fun v => Act.pop >>= fun u => Act.ofExcept (f v u)) _ = _
  rw [Act.bind_apply_ok (Act.pop_apply_of_cons rfl), Act.bind_apply_ok (Act.pop_apply_of_cons rfl), h]
  rfl

theorem execute_join {top lower : Value} {a b : String} (ha : lower.written = .ok a)
    (hb : top.written = .ok b) :
    join.execute files call { s with stack := top :: lower :: vs } =
      ⟨.ok (), { s with stack := .text (a ++ b) :: vs }, "", []⟩ := by
  have hjoined : joined top lower = .ok (a ++ b) := by
    rw [joined, ha, hb]
    rfl
  have hreply : (Act.applyTop 2 joinMethod.function : Act Op Reply)
      { s with stack := top :: lower :: vs } =
        ⟨.ok (.one (.text (a ++ b))), { s with stack := vs }, "", []⟩ :=
    applyTop_two s vs joinMethod.function (by simp [joinMethod, hjoined])
  show (Act.applyTop 2 joinMethod.function >>= Act.answer) _ = _
  rw [Act.bind_apply_ok hreply, Act.answer, Act.push_apply]
  rfl

end Builtin

namespace Token

open Numeral

/-- **Numbers are read and written exactly.** A text is taken for a number if and only if it is an optional
minus sign and then one or more digits, ASCII or full-width. With at most 4300 digits it is the number that
these give in base ten. With more it fails for its length, and nothing else is ever found wrong with it.

Every integer of at most 4300 digits comes back: its decimal text is what 書く writes and what 繋ぐ puts on either
side of another value's text, and the only token of this text is the integer. -/
theorem numbers_round_trip (Op : Type) :
    (∀ raw : String,
      (TakenForNumber raw ↔ ∃ negative ds, Spelling raw negative ds) ∧
      (∀ negative ds, Spelling raw negative ds → ds.length ≤ 4300 →
        classify raw = .ok ⟨.number, .int (signed negative (Nat.ofDigits 10 ds.reverse)), raw⟩) ∧
      (∀ negative ds, Spelling raw negative ds → 4300 < ds.length →
        classify raw = .error (.numeralTooLong ds.length)) ∧
      ∀ text, classify raw ≠ .error (.notANumeral text)) ∧
    ∀ n : Int, n.natAbs < 10 ^ 4300 →
      (∀ files call (s : State Op) vs,
        Builtin.write.execute files call { s with stack := .int n :: vs } =
          ⟨.ok (), { s with stack := vs }, toString n, []⟩) ∧
      (∀ files call (s : State Op) vs v text, v.written = .ok text →
        Builtin.join.execute files call { s with stack := v :: .int n :: vs } =
            ⟨.ok (), { s with stack := .text (toString n ++ text) :: vs }, "", []⟩ ∧
          Builtin.join.execute files call { s with stack := .int n :: v :: vs } =
            ⟨.ok (), { s with stack := .text (text ++ toString n) :: vs }, "", []⟩) ∧
      tokenize (toString n) = .ok [⟨.number, .int n, toString n⟩] := by
  rw [show 4300 = digitLimit from rfl]
  refine ⟨fun raw => ⟨takenForNumber_iff, ?_, ?_, ?_⟩, fun n hn => ?_⟩
  · intro negative ds h hshort
    rw [classify_of_spelling h, if_neg (Nat.not_lt.mpr hshort)]
  · intro negative ds h hlong
    rw [classify_of_spelling h, if_pos hlong]
  · intro text herror
    obtain ⟨_, _, _, _, heq⟩ := classify_eq_error_iff.mp herror
    cases heq
  · have hwritten : (Value.int n).written = .ok (toString n) := write_eq_ok hn
    refine ⟨fun files call s vs => Builtin.execute_write files call s vs hwritten, ?_,
      tokenize_toString hn⟩
    intro files call s vs v text hv
    exact ⟨Builtin.execute_join files call s vs hwritten hv,
      Builtin.execute_join files call s vs hv hwritten⟩

/-- A minus sign, a leading zero and digits of both widths. -/
theorem spelling_mixedWidths : Spelling "-０1２" true [0, 1, 2] where
  nonempty := by decide
  spelt := ⟨"０1２".toList, by decide,
    .cons (by decide) (.cons (by decide) (.cons (by decide) .nil))⟩

theorem spelling_replicate {c : Char} {d : Nat} (h : (c, d) ∈ digitTable) {k : Nat} (hk : k ≠ 0) :
    Spelling (String.ofList (List.replicate k c)) false (List.replicate k d) where
  nonempty := by simpa using hk
  spelt := by
    refine ⟨List.replicate k c, String.toList_ofList, ?_⟩
    clear hk
    induction k with
    | zero => exact .nil
    | succ k ih => exact .cons h ih

theorem numbers_round_trip_mixedWidths :
    classify "-０1２" = .ok ⟨.number, .int (-12), "-０1２"⟩ ∧
      classify (String.ofList (List.replicate 4301 '１')) = .error (.numeralTooLong 4301) ∧
      tokenize "-12" = .ok [⟨.number, .int (-12), "-12"⟩] := by
  obtain ⟨hread, hshown⟩ := numbers_round_trip Empty
  have hlong := (hread _).2.2.1 false _ (spelling_replicate (c := '１') (d := 1) (by decide)
    (k := 4301) (by decide)) (by rw [List.length_replicate]; decide)
  rw [List.length_replicate] at hlong
  have hsmall : (-12 : Int).natAbs < 10 ^ 4300 := by
    rw [show 4300 = digitLimit from rfl]
    exact Nat.lt_of_lt_of_le (by decide : 12 < 10 ^ 2) (Nat.pow_le_pow_right (by decide) (by decide))
  exact ⟨(hread _).2.1 true _ spelling_mixedWidths (by decide), hlong, (hshown (-12) hsmall).2.2⟩

end Token

end WordMachine
