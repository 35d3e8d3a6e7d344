import Mathlib.Algebra.Ring.Nat
import WordMachine.Proofs.Numerals
import WordMachine.Proofs.Policy
import WordMachine.Proofs.Session
import WordMachine.Proofs.Unreadable
import WordMachine.Proofs.WordByWord
import WordMachine.Proofs.WordKinds

/-!
# What ends a session

The console answers the machine's own errors and nothing else, so a fault ends a session. Of all faults only
three can come up at a console that loads its sources as UTF-8, and each has its reason in what was typed or
loaded (`Fault.Escapes`): a numeral of more than 4300 digits, a path with the character U+0000, which some text
must have brought in, and an integer of more than 4300 digits that is to be shown. The last one needs no long
numeral, since sums grow.

These are the failures of a `Policy` that lets U+0000 into values only if some text has it. None of them is a
mere possibility. A line that is nothing but a numeral of more than 4300 digits is not answered in any state
(`World.eval_of_isRun`), nor is one that writes the double of a large number (`World.eval_double`).
-/

namespace WordMachine

open Text Word

/-! ## The reasons -/

/-- The faults that running texts may come to, if all that is run is among the given texts. -/
inductive Fault.Escapes (given : String → Prop) : Fault → Prop where
  /-- A word of a given text is a numeral of more than `digitLimit` digits. -/
  | numeralTooLong {x : String} {w : Word} {negative : Bool} {ds : List Char} (hx : given x)
    (hw : w ∈ scan x) (hrun : Token.IsRun w.text.toList negative ds) (hlong : digitLimit < ds.length) :
    Escapes given (.numeralTooLong ds.length)
  /-- A given text has the character U+0000. -/
  | nullInPath {x : String} (hx : given x) (hnull : '\x00' ∈ x.toList) : Escapes given .nullInPath
  | integerTooLong : Escapes given .integerTooLong

/-- How running given texts may fail: with any error of the machine, or with a fault that has its reason. -/
def Failure.Escapes (given : String → Prop) : Failure → Prop
  | .error _ => True
  | .fault f => f.Escapes given

/-- What a session with these lines may run: the lines, and whatever can be loaded. -/
def Console.Given (files : Files) (lines : List String) (x : String) : Prop :=
  x ∈ lines ∨ ∃ path, Source.read files (some "utf-8") path = .ok x

/-- A source that should be UTF-8 is read, or an error of the machine says why not, or its path has U+0000. -/
theorem Source.read_utf8_cases (files : Files) (path : String) :
    (∃ x, read files (some "utf-8") path = .ok x) ∨
      (∃ e, read files (some "utf-8") path = .error (.error e)) ∨
      read files (some "utf-8") path = .error (.fault .nullInPath) ∧ '\x00' ∈ path.toList := by
  by_cases hnull : hasNull path = true
  · refine .inr (.inr ⟨?_, List.contains_iff_mem.mp hnull⟩)
    unfold read
    simp only
    rw [if_neg (by decide), if_pos hnull]
  · rw [Bool.not_eq_true] at hnull
    rcases read_cases hnull files .utf8 with ⟨octets, cs, -, -, hread⟩ | ⟨reason, hread⟩ |
      ⟨⟨hutf16, -⟩, -⟩
    · exact .inl ⟨_, hread⟩
    · exact .inr (.inl ⟨_, hread⟩)
    · cases hutf16

/-! ## The policy -/

namespace Policy

/-- Given texts from UTF-8 sources, with U+0000 in values only if one of the texts has it. -/
def escaping (given : String → Prop) : Policy where
  char c := c = '\x00' → ∃ x, given x ∧ '\x00' ∈ x.toList
  text := given
  encoding e := e = some "utf-8"
  failure := Failure.Escapes given
  digit := by
    rintro c hc rfl
    exact absurd hc (by decide)
  minus h := absurd h (by decide)
  newline h := absurd h (by decide)
  error _ := trivial
  tooLong := .integerTooLong
  literal := by
    intro x w t hx hw ht hk
    obtain ⟨body, hpayload, -, hsubset⟩ := Token.exists_body_of_literal hw ht hk
    rw [hpayload]
    rintro c hc rfl
    rw [String.toList_ofList] at hc
    exact ⟨x, hx, hsubset hc⟩
  unread := by
    intro x w f hx hw hf
    obtain ⟨negative, ds, hrun, hlong, rfl⟩ := Token.classify_eq_error_iff.mp hf
    exact .numeralTooLong hx hw hrun hlong

theorem allowsFiles_escaping {given : String → Prop} {files : Files}
    (h : ∀ path x, Source.read files (some "utf-8") path = .ok x → given x) :
    (escaping given).AllowsFiles files := by
  rintro e path rfl hpath
  rcases Source.read_utf8_cases files path with ⟨x, hx⟩ | ⟨e, he⟩ | ⟨hf, hnull⟩
  · rw [hx]
    exact h path x hx
  · rw [he]
    exact trivial
  · obtain ⟨x, hx, hmem⟩ := hpath _ hnull rfl
    rw [hf]
    exact Fault.Escapes.nullInPath hx hmem

theorem obeyed_escaping_install {Op : Type} (given : String → Prop) :
    (escaping given).Obeyed (State.new.install (some "utf-8") : State Op) := by
  refine obeyed_install rfl ?_
  rintro c hc rfl
  exact absurd hc (by decide)

end Policy

/-! ## A line that is one long numeral -/

namespace Token

/-- A text that is a numeral of too many digits stops at its first word. -/
theorem IsRun.stopsAt {text : String} {negative : Bool} {ds : List Char}
    (h : IsRun text.toList negative ds) (hlong : digitLimit < ds.length) :
    StopsAt text 0 [] text (.numeralTooLong ds.length) where
  before := rfl
  word := by
    rw [h.scan_eq]
    rfl
  fault := classify_eq_error_iff.mpr ⟨negative, ds, h, hlong, rfl⟩

end Token

namespace World

/-- A numeral of more than `digitLimit` digits is not answered, whatever the state. -/
theorem eval_of_isRun {Op : Type} (w : World Op) (limit : Nat) {line : String} {negative : Bool}
    {ds : List Char} (h : Token.IsRun line.toList negative ds) (hlong : digitLimit < ds.length)
    (s : State Op) :
    w.eval limit line s = ⟨.error (.fault (.numeralTooLong ds.length)), s, "", []⟩ := by
  have hrun : w.run limit line s = ⟨.error (.fault (.numeralTooLong ds.length)), s, "", []⟩ := by
    rw [run, (h.stopsAt hlong).runText_eq, Act.interpret, pure_bind, Act.fail_apply]
  rw [eval_of_run_fault (by rw [hrun]), hrun]

/-- A line is answered, or the fault it ends in has its reason in the texts that were given. -/
theorem eval_cases {given : String → Prop} {files : Files}
    (h : ∀ path x, Source.read files (some "utf-8") path = .ok x → given x) (limit : Nat)
    {line : String} (hline : given line) {s : State Empty} (hs : (Policy.escaping given).Obeyed s) :
    (∃ r, ((ofFiles files).eval limit line s).result = .ok r) ∨
      ∃ f, ((ofFiles files).eval limit line s).result = .error (.fault f) ∧ f.Escapes given := by
  have hkeeps := keeps_eval (w := ofFiles files) (Policy.allowsFiles_escaping h) limit hline s hs
  cases hr : ((ofFiles files).run limit line s).result with
  | ok u =>
    rw [eval_of_run_ok hr]
    exact .inl ⟨_, rfl⟩
  | error e =>
    cases e with
    | error e =>
      rw [eval_of_run_raise hr]
      exact .inl ⟨_, rfl⟩
    | fault f =>
      rw [eval_of_run_fault hr] at hkeeps ⊢
      exact .inr ⟨f, rfl, hkeeps.failed _ rfl⟩

/-- **What the console does not answer.** In a session on a new machine with the built-in words, whatever was
typed before and whatever can be loaded:

* a line that runs to its end is answered, and so is an error of the machine, with its message; then stack,
  buffer and open units are dropped, and only words and declarers stay;
* a line that is not answered ends in a fault, and this is one of three: a numeral of more than 4300 digits
  among the words of a line or a source, a path with U+0000 taken from one of them, or an integer of more than
  4300 digits that is to be shown;
* a line that is such a numeral is never answered. -/
theorem session_escapes (files : Files) (limit : Nat) (lines : List String) (line : String) :
    let w := ofFiles files
    let s := w.stateAfterLines limit lines (State.new.install (some "utf-8"))
    Answers (w.run limit line s) (w.eval limit line s) ∧
    ((∃ r, (w.eval limit line s).result = .ok r) ∨
      ∃ f, (w.eval limit line s).result = .error (.fault f) ∧
        f.Escapes (Console.Given files (lines ++ [line]))) ∧
    ∀ negative ds, Token.IsRun line.toList negative ds → 4300 < ds.length →
      w.eval limit line s = ⟨.error (.fault (.numeralTooLong ds.length)), s, "", []⟩ := by
  intro w s
  have hloaded : ∀ path x, Source.read files (some "utf-8") path = .ok x →
      Console.Given files (lines ++ [line]) x := fun path x hx => .inr ⟨path, hx⟩
  have hfiles := Policy.allowsFiles_escaping hloaded
  have hobeyed : (Policy.escaping (Console.Given files (lines ++ [line]))).Obeyed s := by
    refine w.stateAfterLines_keeps limit (fun earlier hearlier r hr => ?_)
      (Policy.obeyed_escaping_install _)
    have hgiven : Console.Given files (lines ++ [line]) earlier := .inl (by simp [hearlier])
    exact (keeps_eval (w := w) hfiles limit hgiven r hr).state
  refine ⟨?_, ?_, fun negative ds h hlong => w.eval_of_isRun limit h hlong s⟩
  · exact w.eval_answers limit line (w.consistent_stateAfterLines limit lines fun _ => rfl)
  · exact eval_cases hloaded limit (.inl (by simp)) hobeyed

end World

/-! ## A sum that is too long to show -/

namespace Numeral

theorem write_eq_error {n : Int} (h : 10 ^ digitLimit ≤ n.natAbs) :
    write n = .error .integerTooLong := by
  have hlong : digitLimit < (Nat.toDigits 10 n.natAbs).length := by
    by_contra hshort
    have := (Nat.length_toDigits_le_iff (by decide) (by decide)).mp (Nat.le_of_not_lt hshort)
    omega
  rw [write, if_pos hlong]

theorem digitsValue_nines (k : Nat) : digitsValue (List.replicate k '9') + 1 = 10 ^ k := by
  induction k with
  | zero => rfl
  | succ k ih =>
    have hnine : (digitValue? '9').getD 0 = 9 := by decide
    have hlast : digitsValue (List.replicate (k + 1) '9') =
        10 * digitsValue (List.replicate k '9') + 9 := by
      rw [List.replicate_succ', digitsValue, List.foldl_append, List.foldl_cons, List.foldl_nil, hnine]
      rfl
    rw [hlast, Nat.pow_succ, ← ih]
    omega

theorem pow_le_double_nines {k : Nat} (hk : 0 < k) :
    10 ^ k ≤ ((digitsValue (List.replicate k '9') : Int) +
      (digitsValue (List.replicate k '9') : Int)).natAbs := by
  have hnines := digitsValue_nines k
  have hten : 10 ^ 1 ≤ 10 ^ k := Nat.pow_le_pow_right (by decide) hk
  omega

end Numeral

/-- A new machine with the built-in words and these values on the stack. -/
def State.holding {Op : Type} (vs : List Value) : State Op :=
  { State.new.install (some "utf-8") with stack := vs }

namespace World

variable {Op : Type} (w : World Op) (limit : Nat)

theorem runToken_holding {name : String} {b : Builtin} (h : (name, b) ∈ Builtin.all (some "utf-8"))
    (vs : List Value) :
    Act.runToken (w.execute (limit + 1)) (Token.identifier name) (.holding vs) =
      b.execute w.files (w.execute limit) (.holding vs) := by
  have hbound : (State.holding vs : State Op).dictionary[(Token.identifier name).name]? =
      some (.builtin b) := Dictionary.getElem?_install (some "utf-8") ∅ h
  rw [Act.runToken_identifier rfl Std.ExtTreeSet.not_mem_empty, execute_succ_apply hbound]
  rfl

/-- The double of an integer on the stack is shown only if it is short enough. -/
theorem eval_double {n : Int} (h : 10 ^ digitLimit ≤ (n + n).natAbs) :
    (w.eval (limit + 1) "複製 足す 書く" (.holding [.int n])).result =
      .error (.fault .integerTooLong) := by
  have htokens : Token.tokenize "複製 足す 書く" =
      .ok [Token.identifier "複製", Token.identifier "足す", Token.identifier "書く"] := by
    decide +kernel
  have hcopy : Act.runToken (w.execute (limit + 1)) (Token.identifier "複製") (.holding [.int n]) =
      ⟨.ok (), .holding [.int n, .int n], "", []⟩ :=
    w.runToken_holding limit (b := .copyBottom) (by simp [Builtin.all]) _
  have hadd : Act.runToken (w.execute (limit + 1)) (Token.identifier "足す")
      (.holding [.int n, .int n]) = ⟨.ok (), .holding [.int (n + n)], "", []⟩ :=
    w.runToken_holding limit (b := .add) (by simp [Builtin.all]) _
  have hwrite : Act.runToken (w.execute (limit + 1)) (Token.identifier "書く")
      (.holding [.int (n + n)]) = ⟨.error (.fault .integerTooLong), .holding [], "", []⟩ := by
    rw [w.runToken_holding limit (b := .write) (by simp [Builtin.all]), Builtin.execute,
      Act.bind_apply_ok (Act.pop_apply_of_cons rfl), Value.written, Numeral.write_eq_error h]
    rfl
  have hrun : w.run (limit + 1) "複製 足す 書く" (.holding [.int n]) =
      ⟨.error (.fault .integerTooLong), .holding [], "", []⟩ := by
    rw [run, Act.runText, Act.runWords_eq_interpret _ htokens, Act.interpret, Act.bind_apply_ok hcopy,
      Act.interpret, Act.bind_apply_ok hadd, Act.interpret, Act.bind_apply_error hwrite]
    rfl
  rw [eval_of_run_fault (by rw [hrun])]

/-- A numeral that is short enough puts its value on the stack. -/
theorem eval_of_isRun_of_le {line : String} {negative : Bool} {ds : List Char} {n : Nat}
    (h : Token.IsRun line.toList negative ds) (hshort : ds.length ≤ digitLimit)
    (hn : Numeral.digitsValue (ds.map Numeral.narrowDigit) = n) {s : State Op} (hs : s.depth = 0) :
    (w.eval limit line s).state =
      { s with stack := .int (Numeral.signed negative n) :: s.stack } := by
  have hclassify : Token.classify line =
      .ok ⟨.number, .int (Numeral.signed negative n), line⟩ := by
    rw [h.classify_eq, if_neg (Nat.not_lt.mpr hshort), hn]
  have hpush : Act.runToken (w.execute limit) ⟨.number, .int (Numeral.signed negative n), line⟩ s =
      ⟨.ok (), { s with stack := .int (Numeral.signed negative n) :: s.stack }, "", []⟩ := by
    rw [Act.runToken_of_executing hs]
    rfl
  have hrun : w.run limit line s =
      ⟨.ok (), { s with stack := .int (Numeral.signed negative n) :: s.stack }, "", []⟩ := by
    rw [run, Act.runText, h.scan_eq, Act.runWords, hclassify, Act.orFault, pure_bind, Act.runWords,
      Act.bind_apply_ok hpush]
    rfl
  rw [eval_of_run_ok (by rw [hrun]), hrun]

/-- None of the three reasons can be left out: a line of 4301 digits, a line that loads a path with U+0000, and
a line that doubles a number of 4300 digits and writes it are not answered. -/
theorem unanswered_lines :
    let w := ofFiles fun _ => .error .notFound
    let s := State.new.install (some "utf-8")
    (w.eval callLimit (String.ofList (List.replicate 4301 '1')) s).result =
        .error (.fault (.numeralTooLong 4301)) ∧
      (w.eval callLimit "「\x00」読み込む" s).result = .error (.fault .nullInPath) ∧
      (w.eval callLimit "複製 足す 書く"
          (w.stateAfterLines callLimit [String.ofList (List.replicate 4300 '9')] s)).result =
        .error (.fault .integerTooLong) := by
  intro w s
  have hones := Token.isRun_replicate (c := '1') (by decide) (k := 4301) (by decide)
  have hnines := Token.isRun_replicate (c := '9') (by decide) (k := digitLimit) (by decide)
  refine ⟨?_, by decide +kernel, ?_⟩
  · rw [w.eval_of_isRun callLimit hones (by rw [List.length_replicate]; decide), List.length_replicate]
  · have hnine : Numeral.narrowDigit '9' = '9' := by decide
    have hdouble := Numeral.pow_le_double_nines (k := digitLimit) (by decide)
    -- the number itself is never computed
    generalize hn : Numeral.digitsValue (List.replicate digitLimit '9') = n at hdouble
    have hstate : w.stateAfterLines callLimit [String.ofList (List.replicate digitLimit '9')] s =
        .holding [.int n] := by
      rw [stateAfterLines, List.foldl_cons, List.foldl_nil]
      refine w.eval_of_isRun_of_le callLimit hnines (Nat.le_of_eq List.length_replicate) ?_ rfl
      rw [List.map_replicate, hnine, hn]
    rw [show 4300 = digitLimit from rfl, hstate]
    exact w.eval_double 299 hdouble

end World

end WordMachine
