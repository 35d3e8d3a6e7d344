import Mathlib.Control.Monad.Basic
import WordMachine.Proofs.Compiling
import WordMachine.Proofs.Simulation

/-!
# Values below the stack

All but three of the built-in words work on the top of the stack. A machine that has none of the three
cannot tell whether more values lie below its stack, as long as it does not run out of values: with
`below` underneath, a text runs to the same end, with the same output, and leaves `below` where it was.

The proof is a simulation (`simulation_framed`). The one failure that more values can prevent is a stack
that is empty too early, so this failure counts as bad and all others are the same. The dictionary
stays free of the three words, since a run defines compiled words only.
-/

namespace WordMachine

variable {Op : Type}

/-- Whether a word works on the top of the stack only. Operations of the surrounding program need
not. -/
def Definition.IsLocal : Definition Op → Prop
  | .builtin b => b.seesBottom = false
  | .method _ => True
  | .custom _ => False
  | .procedure _ => True

def Dictionary.Local (d : Dictionary Op) : Prop :=
  ∀ (name : Value) (entry : Definition Op), d[name]? = some entry → entry.IsLocal

namespace Dictionary

theorem local_empty : Local (∅ : Dictionary Op) := by
  intro name entry h
  simp at h

theorem Local.insert {d : Dictionary Op} (h : d.Local) (name : Value) {entry : Definition Op}
    (hentry : entry.IsLocal) : Local (d.insert name entry) := by
  intro other found hfound
  rw [Std.ExtTreeMap.getElem?_insert] at hfound
  split at hfound
  · cases hfound
    exact hentry
  · exact h other found hfound

end Dictionary

/-! ## A stack with more below it -/

namespace State

/-- The state with the values `below` underneath its stack. -/
def above (s : State Op) (below : List Value) : State Op :=
  { s with stack := s.stack ++ below }

theorem compiled_above {s : State Op} {t : Token} (h : t.wantsTop = true → s.stack ≠ [])
    (below : List Value) : (s.above below).compiled t = (s.compiled t).above below := by
  -- a token that wants a top finds it, and does not see what lies below
  by_cases hw : t.wantsTop = true
  · obtain ⟨v, vs, hs⟩ := List.exists_cons_of_ne_nil (h hw)
    by_cases hc : t.isCloser = true
    · simp [compiled, above, depthBehind, opens, top, hs, hc]
    · simp [compiled, above, depthBehind, opens, top, hs, hc]
  · have hd : t.kind ≠ .declaration := fun hd => hw (Token.wantsTop_of_declaration hd)
    have hc : t.isCloser = false := by
      simpa using fun hc => hw (Token.wantsTop_of_isCloser hc)
    simp [compiled, above, depthBehind, opens, hd, hc]

theorem local_compiled {s : State Op} (h : s.dictionary.Local) (t : Token) :
    (s.compiled t).dictionary.Local := by
  simp only [compiled]
  split
  · exact h.insert _ trivial
  · exact h

/-- `r` is `s` with `below` underneath, and all words are local. -/
def Framed (below : List Value) (s r : State Op) : Prop :=
  s.dictionary.Local ∧ r = s.above below

end State

/-! ## The frame as a simulation -/

/-- The failure that more values can prevent. -/
def Failure.IsEmptyStack (e : Failure) : Prop :=
  e = .error .emptyStack

namespace Act

variable {below : List Value}

theorem pop_framed :
    Simulated Failure.IsEmptyStack (@State.Framed Op below) pop pop := by
  rintro s r ⟨hlocal, rfl⟩ hgood
  cases hs : s.stack with
  | nil =>
    -- here the values below would be popped, but this end is a bad one
    rw [pop_apply_of_nil hs] at hgood
    exact absurd rfl (hgood _ rfl)
  | cons v vs =>
    have habove : (s.above below).stack = v :: (vs ++ below) := by simp [State.above, hs]
    rw [pop_apply_of_cons hs, pop_apply_of_cons habove]
    exact ⟨rfl, rfl, hlocal, rfl⟩

theorem compile_framed {s r : State Op} (h : s.Framed below r) (t : Token) :
    (compile t s).Simulated Failure.IsEmptyStack (State.Framed below) (compile t r) := by
  obtain ⟨hlocal, rfl⟩ := h
  intro hgood
  have htop : t.wantsTop = true → s.stack ≠ [] := by
    intro hw hs
    rw [compile_apply_of_nil hw hs] at hgood
    exact hgood _ rfl rfl
  have htop' : t.wantsTop = true → (s.above below).stack ≠ [] := by
    intro hw
    simp [State.above, htop hw]
  rw [compile_apply htop, compile_apply htop', State.compiled_above htop]
  exact ⟨rfl, rfl, State.local_compiled hlocal t, rfl⟩

end Act

theorem simulation_framed (below : List Value) :
    Simulation Failure.IsEmptyStack (@State.Framed Op below) (· = ·) where
  toTokensRelated := tokensRelated_eq
  depth := by
    rintro s r ⟨-, rfl⟩
    rfl
  declarers := by
    rintro s r name ⟨-, rfl⟩ -
    rfl
  enter := by
    rintro s r ⟨hlocal, rfl⟩
    exact ⟨hlocal, rfl⟩
  push := by
    rintro s r vs ⟨hlocal, rfl⟩
    exact ⟨hlocal, by simp [State.above]⟩
  pop := Act.pop_framed
  compile := by
    rintro s r t u hR rfl -
    exact Act.compile_framed hR t

namespace World

theorem perform_framed (w : World Op) {below : List Value} {call call' : Act.Call Op}
    (hcall : Act.CallsSimulated Failure.IsEmptyStack (State.Framed below) call call')
    {d : Definition Op} (hd : d.IsLocal) :
    Act.Simulated Failure.IsEmptyStack (State.Framed below) (w.perform call d)
      (w.perform call' d) := by
  cases d with
  | builtin b => exact (simulation_framed below).builtin hcall w.files hd
  | method m => exact (simulation_framed below).method m
  | custom op => exact hd.elim
  | procedure tokens => exact (simulation_framed below).interpret hcall fun _ _ => rfl

theorem execute_framed (w : World Op) (below : List Value) (limit : Nat) :
    Act.CallsSimulated Failure.IsEmptyStack (State.Framed below) (w.execute limit)
      (w.execute limit) := by
  refine w.execute_simulated (D := fun d d' => d' = d ∧ d.IsLocal) ?_ ?_ limit
  · rintro s r ⟨hlocal, rfl⟩ name -
    exact .of_dictionary_eq rfl fun d hd => ⟨rfl, hlocal name d hd⟩
  · rintro call call' hcall d d' ⟨rfl, hd⟩
    exact w.perform_framed hcall hd

/-- **The frame rule.** Where no word sees the bottom of the stack, a text that does not run out of
values does the same with any values put below the stack, and leaves them there: it ends normally or
with the same error, after the same output, and in the same state above these values. -/
theorem run_above (w : World Op) (limit : Nat) (text : String) {s : State Op} (below : List Value)
    (hlocal : s.dictionary.Local)
    (hgood : (w.run limit text s).result ≠ .error (.error .emptyStack)) :
    (w.run limit text (s.above below)).result = (w.run limit text s).result ∧
      (w.run limit text (s.above below)).output = (w.run limit text s).output ∧
      (w.run limit text (s.above below)).state = (w.run limit text s).state.above below := by
  have hcalls := w.execute_framed below limit
  have hrun := (simulation_framed below).runWords hcalls (Word.scan text)
  obtain ⟨hresult, houtput, -, hstate⟩ :=
    hrun s (s.above below) ⟨hlocal, rfl⟩ fun e he hempty => hgood (hempty ▸ he)
  exact ⟨hresult, houtput, hstate⟩

/-- A machine that can add and write, with two numbers on its stack. -/
def addingTwoAndThree : State Empty :=
  ⟨((∅ : Dictionary Empty).insert (.text "足す") (.builtin .add)).insert (.text "書く") (.builtin .write),
    [.int 3, .int 2], [], 0, ∅⟩

/-- The sum is written and a third word fails, above values that stay as they are. -/
theorem run_above_adding :
    addingTwoAndThree.dictionary.Local ∧
      ((ofFiles fun _ => .error .notFound).run callLimit "足す 書く 消す"
        (addingTwoAndThree.above [.text "底", .int 7])).result =
          .error (.error (.unknownName "消す")) ∧
      ((ofFiles fun _ => .error .notFound).run callLimit "足す 書く 消す"
        (addingTwoAndThree.above [.text "底", .int 7])).output = "5" ∧
      ((ofFiles fun _ => .error .notFound).run callLimit "足す 書く 消す"
        (addingTwoAndThree.above [.text "底", .int 7])).state.stack = [.text "底", .int 7] := by
  have hadd : Definition.IsLocal (.builtin .add : Definition Empty) := rfl
  have hwrite : Definition.IsLocal (.builtin .write : Definition Empty) := rfl
  have hlocal : addingTwoAndThree.dictionary.Local :=
    (Dictionary.local_empty.insert _ hadd).insert _ hwrite
  have hresult : ((ofFiles fun _ => .error .notFound).run callLimit "足す 書く 消す"
      addingTwoAndThree).result = .error (.error (.unknownName "消す")) := by decide +kernel
  obtain ⟨hsame, houtput, hstate⟩ := run_above (ofFiles fun _ => .error .notFound) callLimit
    "足す 書く 消す" [.text "底", .int 7] hlocal (by rw [hresult]; decide)
  refine ⟨hlocal, hsame.trans hresult, houtput.trans ?_, ?_⟩
  · decide +kernel
  · rw [hstate]
    decide +kernel

end World

end WordMachine
