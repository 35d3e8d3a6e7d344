import WordMachine.Proofs.Policy
import WordMachine.Proofs.WordKinds

/-!
# A character that no value has

A literal ends at the first 」, so no text puts one with 」 on the stack. Nothing that a program can do with
values makes that character either: integers are written without it, and all else takes values as they are or
joins them. So a machine that is given nothing but texts never gets hold of it. The names of words and the
declarers come from the stack, and therefore lack it too, and so does all output.

Identifiers, comments and declarations may well have a 」. They are kept in the buffer and in words with it, but
only the payloads of literals and numbers ever become values.
-/

namespace WordMachine

variable {Op : Type}

open Word

/-- The value is no text with this character. -/
def Value.Lacks (c : Char) (v : Value) : Prop :=
  ∀ t, v = .text t → c ∉ t.toList

/-- A value of other characters only. -/
theorem Value.lacks_of_within {c : Char} {v : Value} (h : v.Within (· ≠ c)) : v.Lacks c := by
  rintro t rfl hc
  exact h c hc rfl

namespace State

/-- The states that texts lead to from a new machine with the built-in words, run or evaluated one after the
other. Files and limits may change between two texts. A text that fails leads to the state it failed in, or to
the one that the console starts over with. -/
inductive ByTexts (encoding : Option String) : State Op → Prop where
  | new : ByTexts encoding (State.new.install encoding)
  | run {s : State Op} (h : ByTexts encoding s) (w : World Op) (limit : Nat) (text : String) :
    ByTexts encoding (w.run limit text s).state
  | eval {s : State Op} (h : ByTexts encoding s) (w : World Op) (limit : Nat) (line : String) :
    ByTexts encoding (w.eval limit line s).state

/-- No value that the state holds, and none that its tokens put on the stack as literals, has the character. -/
structure Lacks (c : Char) (s : State Op) : Prop where
  stack : ∀ v ∈ s.stack, v.Lacks c
  declarers : ∀ v ∈ s.declarers, v.Lacks c
  names : ∀ name ∈ s.dictionary, name.Lacks c
  buffer : ∀ t ∈ s.buffer, t.kind = .literal → t.payload.Lacks c
  words : ∀ (name : Value) (tokens : List Token),
    s.dictionary[name]? = some (.procedure tokens) →
      ∀ t ∈ tokens, t.kind = .literal → t.payload.Lacks c

end State

namespace Policy

/-- Values without 」; all texts may be run, from files in any encoding, and may fail in any way. -/
def withoutClose : Policy where
  char c := c ≠ literalClose
  text _ := True
  encoding _ := True
  failure _ := True
  digit := by
    rintro c hc rfl
    exact absurd hc (by decide)
  minus := by decide
  newline := by decide
  error _ := trivial
  tooLong := trivial
  literal := by
    intro x w t _ hw ht hk
    obtain ⟨body, hpayload, hlacks, -⟩ := Token.exists_body_of_literal hw ht hk
    rw [hpayload]
    rintro c hc rfl
    rw [String.toList_ofList] at hc
    exact hlacks hc
  unread _ _ _ := trivial

theorem allowsFiles_withoutClose (files : Files) : withoutClose.AllowsFiles files :=
  fun _ _ _ _ => .of_cases (fun _ _ => trivial) fun _ _ => trivial

theorem AllowsToken.lacks {t : Token} (h : withoutClose.AllowsToken t) (hk : t.kind = .literal) :
    t.payload.Lacks literalClose :=
  Value.lacks_of_within (h.constant (by simp [Token.isConstant, hk]))

theorem Obeyed.lacks {s : State Op} (h : withoutClose.Obeyed s) : s.Lacks literalClose where
  stack v hv := Value.lacks_of_within (h.stack v hv)
  declarers v hv := Value.lacks_of_within (h.declarers v hv)
  names := by
    intro name hname
    obtain ⟨d, hd⟩ := Option.isSome_iff_exists.mp (Std.ExtTreeMap.mem_iff_isSome_getElem?.mp hname)
    exact Value.lacks_of_within (h.words name d hd).1
  buffer t ht := (h.buffer t ht).lacks
  words name tokens hd t ht := ((h.words name _ hd).2 t ht).lacks

end Policy

namespace State.ByTexts

variable {encoding : Option String} {s : State Op}

/-- Texts never make a 」 a part of a value. -/
theorem obeyed (h : ByTexts encoding s) : Policy.withoutClose.Obeyed s := by
  induction h with
  | new =>
    refine Policy.obeyed_install trivial ?_
    rintro c hc rfl
    exact absurd hc (by decide)
  | run _ w limit text ih =>
    exact (World.keeps_run (Policy.allowsFiles_withoutClose w.files) limit trivial _ ih).state
  | eval _ w limit line ih =>
    exact (World.keeps_eval (Policy.allowsFiles_withoutClose w.files) limit trivial _ ih).state

/-- An identifier with 」 in it names no word. -/
theorem execute_of_mem (h : ByTexts encoding s) (w : World Op) (limit : Nat) {name : String}
    (hname : literalClose ∈ name.toList) :
    w.execute limit (Token.identifier name) s =
      ⟨.error (.error (.unknownName name)), s, "", []⟩ := by
  have hnone : s.dictionary[(Token.identifier name).name]? = none :=
    Std.ExtTreeMap.getElem?_eq_none fun hmem => h.obeyed.lacks.names _ hmem name rfl hname
  rw [World.execute_apply_of_none hnone]
  rfl

/-- **No program makes 」 a part of a value.** Whatever texts were run or evaluated on a machine with the
built-in words, from whatever files, and whether they failed or not:

* no value of the machine has the character: none on the stack, no declarer, no name of a word and no literal
  that was compiled;
* nothing that the next text writes has it;
* a call of an identifier that has it fails, as there is no such word. -/
theorem no_value_has_literalClose (h : ByTexts encoding s) :
    s.Lacks literalClose ∧
    (∀ (w : World Op) (limit : Nat) (text : String),
      literalClose ∉ (w.run limit text s).output.toList ∧
        literalClose ∉ (w.eval limit text s).output.toList) ∧
    ∀ (w : World Op) (limit : Nat) (name : String), literalClose ∈ name.toList →
      w.execute limit (Token.identifier name) s =
        ⟨.error (.error (.unknownName name)), s, "", []⟩ := by
  refine ⟨h.obeyed.lacks, fun w limit text => ⟨?_, ?_⟩, fun w limit name => h.execute_of_mem w limit⟩
  · have hrun : Act.Keeps Policy.withoutClose (fun _ => True) (w.run limit text) :=
      World.keeps_run (Policy.allowsFiles_withoutClose w.files) limit trivial
    exact fun hc => (hrun s h.obeyed).output _ hc rfl
  · have heval : Act.Keeps Policy.withoutClose (fun _ => True) (w.eval limit text) :=
      World.keeps_eval (Policy.allowsFiles_withoutClose w.files) limit trivial
    exact fun hc => (heval s h.obeyed).output _ hc rfl

/-- A word whose name has a 「, with a 」 in a comment among its tokens, and a line that calls it and then an
identifier with 」. -/
theorem no_value_has_literalClose_nested :
    let w := World.ofFiles fun _ => .error .notFound
    let s := (w.run World.callLimit "「「あ」は ※」※「い」です" (State.new.install none)).state
    Value.text "「あ" ∈ s.dictionary ∧ s.Lacks literalClose ∧
      (w.eval World.callLimit "「「あ」実行 書く 」い" s).output = "い" ∧
      literalClose ∉ (w.eval World.callLimit "「「あ」実行 書く 」い" s).output.toList ∧
      (w.execute World.callLimit (Token.identifier "」い") s).result =
        .error (.error (.unknownName "」い")) := by
  intro w s
  obtain ⟨hlacks, houtput, hcall⟩ :=
    no_value_has_literalClose (ByTexts.run .new w World.callLimit "「「あ」は ※」※「い」です")
  refine ⟨by decide +kernel, hlacks, by decide +kernel, ?_, ?_⟩
  · exact (houtput w World.callLimit "「「あ」実行 書く 」い").2
  · exact congrArg Outcome.result (hcall w World.callLimit "」い" (by decide))

end State.ByTexts

end WordMachine
