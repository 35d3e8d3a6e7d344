import Mathlib.Tactic.SplitIfs
import WordMachine.Proofs.Pieces
import WordMachine.Proofs.Reachable
import WordMachine.Proofs.RunPrefix

/-!
# Units that can never be finished

A closer takes the name of its unit off the stack, and as long as a unit is open nothing puts a value
there: the constants of a text go into the buffer like all other tokens. So the number of open units
without a name under them, `State.lack`, never gets less by compiling a token (`lack_le_runToken`).

A machine with more open units than values on its stack is *starved*. Whatever texts it is given, it
stays starved, and so it keeps compiling: it writes nothing and calls no word (`Idles`). Running out of
names is an error, but the error changes nothing either. What frees a starved machine comes from outside:
values that are pushed, a word that is executed past the compiler, or the reset by which a console answers
an error.
-/

namespace WordMachine

variable {Op : Type}

namespace State

/-- How many open units have no name under them; negative if values are left over. -/
def lack (s : State Op) : Int :=
  s.depth - s.stack.length

/-- More units are open than there are values to name them. -/
def Starved (s : State Op) : Prop :=
  s.stack.length < s.depth

theorem starved_iff_lack_pos (s : State Op) : s.Starved ↔ 0 < s.lack := by
  unfold Starved lack
  omega

theorem Starved.depth_pos {s : State Op} (h : s.Starved) : 0 < s.depth :=
  Nat.zero_lt_of_lt h

theorem Starved.mode_eq {s : State Op} (h : s.Starved) : s.mode = .compiling := by
  unfold mode
  rw [if_pos h.depth_pos]

/-- A closer lowers the depth by one and takes one value; an opener only raises the depth. -/
theorem lack_le_compiled {s : State Op} {t : Token} (hd : 0 < s.depth)
    (htop : t.wantsTop = true → s.stack ≠ []) : s.lack ≤ (s.compiled t).lack := by
  by_cases hc : t.isCloser = true
  · obtain ⟨v, vs, hs⟩ := List.exists_cons_of_ne_nil (htop (Token.wantsTop_of_isCloser hc))
    simp only [lack, compiled, depthBehind, hc, hs, if_true, List.tail_cons, List.length_cons]
    split_ifs <;> omega
  · simp only [lack, compiled, depthBehind, hc, Bool.false_eq_true, if_false]
    split_ifs <;> omega

end State

namespace Act

variable {s : State Op} {α β : Type}

/-! ## One token -/

theorem lack_le_runToken (call : Call Op) (t : Token) (hd : 0 < s.depth) :
    s.lack ≤ (runToken call t s).state.lack := by
  rw [runToken_of_compiling hd]
  by_cases hfails : t.wantsTop = true ∧ s.stack = []
  · exact Int.le_of_eq (by rw [compile_apply_of_nil hfails.1 hfails.2])
  · have htop : t.wantsTop = true → s.stack ≠ [] := fun hw hs => hfails ⟨hw, hs⟩
    rw [compile_apply htop]
    exact State.lack_le_compiled hd htop

theorem starved_runToken (call : Call Op) (t : Token) (h : s.Starved) :
    (runToken call t s).state.Starved := by
  have hle := lack_le_runToken call t h.depth_pos
  rw [State.starved_iff_lack_pos] at h ⊢
  omega

theorem output_compile (t : Token) (s : State Op) : (compile t s).output = "" := by
  rcases compile_cases t s with hfail | hok
  · rw [hfail]
  · rw [hok]

/-! ## Whole runs -/

/-- From the state `s`, whatever calling a word would do: the run leaves the machine starved, writes
nothing and calls nothing. -/
structure Idles (run : Call Op → Act Op α) (s : State Op) : Prop where
  starved : ∀ call, (run call s).state.Starved
  silent : ∀ call, (run call s).output = ""
  callless : ∀ call call', run call s = run call' s

namespace Idles

theorem pure (a : α) (h : s.Starved) : Idles (fun _ => (Pure.pure a : Act Op α)) s :=
  ⟨fun _ => h, fun _ => rfl, fun _ _ => rfl⟩

theorem bind {m : Call Op → Act Op α} {f : Call Op → α → Act Op β} (hm : Idles m s)
    (hf : ∀ a (r : State Op), r.Starved → Idles (fun call => f call a) r) :
    Idles (fun call => m call >>= f call) s := by
  refine ⟨?_, ?_, ?_⟩
  · intro call
    cases hr : (m call s).result with
    | ok a =>
      rw [bind_apply_of_ok hr]
      exact (hf a _ (hm.starved call)).starved call
    | error e =>
      rw [bind_apply_of_error hr]
      exact hm.starved call
  · intro call
    cases hr : (m call s).result with
    | ok a =>
      rw [bind_apply_of_ok hr]
      simp [hm.silent call, (hf a _ (hm.starved call)).silent call]
    | error e =>
      rw [bind_apply_of_error hr]
      exact hm.silent call
  · intro call call'
    show (m call >>= f call) s = (m call' >>= f call') s
    rw [bind_apply_congr (hm.callless call call')]
    cases hr : (m call' s).result with
    | ok a =>
      rw [bind_apply_of_ok hr, bind_apply_of_ok hr,
        (hf a _ (hm.starved call')).callless call call']
    | error e => rw [bind_apply_of_error hr, bind_apply_of_error hr]

theorem runToken (t : Token) (h : s.Starved) : Idles (fun call => Act.runToken call t) s := by
  refine ⟨fun call => starved_runToken call t h, fun call => ?_, fun call call' => ?_⟩
  · rw [runToken_of_compiling h.depth_pos]
    exact output_compile t s
  · rw [runToken_of_compiling h.depth_pos, runToken_of_compiling h.depth_pos]

theorem interpret (ts : List Token) (h : s.Starved) :
    Idles (fun call => Act.interpret call ts) s := by
  induction ts generalizing s with
  | nil => exact pure () h
  | cons t ts ih => exact bind (runToken t h) fun _ _ hr => ih hr

theorem orFault (x : Except Fault α) (h : s.Starved) : Idles (fun _ => Act.orFault x) s := by
  cases x with
  | ok a => exact pure a h
  | error f => exact ⟨fun _ => h, fun _ => rfl, fun _ _ => rfl⟩

theorem runWords (ws : List Word) (h : s.Starved) : Idles (fun call => Act.runWords call ws) s := by
  induction ws generalizing s with
  | nil => exact pure () h
  | cons w ws ih =>
    exact bind (orFault (Token.classify w.text) h) fun t _ hr =>
      bind (runToken t hr) fun _ _ hq => ih hq

end Idles

end Act

/-- What reaches past the compiler: values are pushed, or a word is executed at once. -/
def Operation.Intervenes : Operation Op → Prop
  | push _ => True
  | pushAll _ => True
  | execute _ => True
  | _ => False

namespace World

variable {w : World Op} {limit : Nat} {s : State Op}

/-- The state after texts were run one by one, each of them whether or not the one before failed. -/
def stateAfterTexts (w : World Op) (limit : Nat) (texts : List String) (s : State Op) : State Op :=
  texts.foldl (fun s text => (w.run limit text s).state) s

theorem starved_run (text : String) (h : s.Starved) : (w.run limit text s).state.Starved :=
  (Act.Idles.runWords (Word.scan text) h).starved _

theorem starved_stateAfterTexts (texts : List String) (h : s.Starved) :
    (w.stateAfterTexts limit texts s).Starved := by
  induction texts generalizing s with
  | nil => exact h
  | cons text texts ih => exact ih (starved_run text h)

/-- A console frees a starved machine only by the reset that follows an error. -/
theorem starved_eval (line : String) (h : s.Starved)
    (hfreed : ¬ (w.eval limit line s).state.Starved) :
    ∃ e, (w.run limit line s).result = .error (.error e) ∧
      (w.eval limit line s).state = (w.run limit line s).state.reset := by
  have hrun : (w.run limit line s).state.Starved := starved_run line h
  cases hr : (w.run limit line s).result with
  | ok u =>
    rw [eval_of_run_ok hr] at hfreed
    exact absurd hrun hfreed
  | error f =>
    cases f with
    | error e => exact ⟨e, rfl, by rw [eval_of_run_raise hr]⟩
    | fault f =>
      rw [eval_of_run_fault hr] at hfreed
      exact absurd hrun hfreed

theorem starved_pop (h : s.Starved) : (Act.pop s).state.Starved := by
  unfold State.Starved at h ⊢
  cases hs : s.stack with
  | nil =>
    rw [Act.pop_apply_of_nil hs]
    exact h
  | cons v vs =>
    rw [Act.pop_apply_of_cons hs]
    rw [hs, List.length_cons] at h
    show vs.length < s.depth
    omega

/-- Of all operations only an intervention and the answer to an error free a starved machine. -/
theorem starved_operation (op : Operation Op) (h : s.Starved)
    (hfreed : ¬ (op.act w limit s).state.Starved) :
    op.Intervenes ∨ ∃ line e, op = .eval line ∧
      (w.run limit line s).result = .error (.error e) ∧
      (op.act w limit s).state = (w.run limit line s).state.reset := by
  cases op with
  | push v => exact .inl trivial
  | pushAll vs => exact .inl trivial
  | execute t => exact .inl trivial
  | eval line =>
    rw [Operation.act, Act.state_drop] at hfreed ⊢
    obtain ⟨e, hr, hreset⟩ := starved_eval line h hfreed
    exact .inr ⟨line, e, rfl, hr, hreset⟩
  | pop =>
    rw [Operation.act, Act.state_drop] at hfreed
    exact absurd (starved_pop h) hfreed
  | peek =>
    rw [Operation.act, Act.state_drop, Act.state_peek] at hfreed
    exact absurd h hfreed
  | run text => exact absurd (starved_run text h) hfreed
  | interpret tokens => exact absurd ((Act.Idles.interpret tokens h).starved _) hfreed
  | runToken t => exact absurd ((Act.Idles.runToken t h).starved _) hfreed
  | define name tokens => exact absurd h hfreed
  | defineNative name op => exact absurd h hfreed
  | addMethod name m => exact absurd h hfreed
  | addDeclarer name => exact absurd h hfreed
  | install encoding => exact absurd h hfreed

/-- **A unit with too few names under it is never finished.**

* A token that is compiled never lowers the number of open units without a name.
* From a starved machine, after any texts and any first words of one more text, the machine is starved
  and compiling, and the run of these words wrote nothing and called no word.
* An operation that leaves a starved machine in another state than a starved one pushes values or executes
  a word from outside, or is the answer of a console to an error. -/
theorem starved_unit_never_finished (w : World Op) (limit : Nat) :
    (∀ (call : Act.Call Op) (t : Token) (s : State Op), 0 < s.depth →
      s.lack ≤ (Act.runToken call t s).state.lack) ∧
    (∀ (texts : List String) (text : String) (k : Nat) (s : State Op), s.Starved →
      let r := w.stateAfterTexts limit texts s
      let o := Act.runWords (w.execute limit) ((Word.scan text).take k) r
      o.state.Starved ∧ o.state.mode = .compiling ∧ o.output = "" ∧
        ∀ call, Act.runWords call ((Word.scan text).take k) r = o) ∧
    ∀ (op : Operation Op) (s : State Op), s.Starved → ¬ (op.act w limit s).state.Starved →
      op.Intervenes ∨ ∃ line e, op = .eval line ∧
        (w.run limit line s).result = .error (.error e) ∧
        (op.act w limit s).state = (w.run limit line s).state.reset := by
  refine ⟨fun call t s hd => Act.lack_le_runToken call t hd, ?_, ?_⟩
  · intro texts text k s h r o
    have hr : r.Starved := starved_stateAfterTexts texts h
    have hidle := Act.Idles.runWords ((Word.scan text).take k) hr
    have hstarved : o.state.Starved := hidle.starved _
    exact ⟨hstarved, hstarved.mode_eq, hidle.silent _, fun call => hidle.callless _ _⟩
  · intro op s h hfreed
    exact starved_operation op h hfreed

/-- A machine with the built-in words that has opened a unit and has no name for it. -/
def namelessUnit : State Empty :=
  { State.new.install none with depth := 1 }

/-- A closer fails, constants and words of output are only compiled, and the unit is still open; the
answer of a console to the closer then frees the machine. -/
theorem starved_unit_never_finished_nameless :
    namelessUnit.Starved ∧
      ((ofFiles fun _ => .error .notFound).run callLimit "です" namelessUnit).result =
        .error (.error .emptyStack) ∧
      (Act.runWords ((ofFiles fun _ => .error .notFound).execute callLimit)
        ((Word.scan "「名」書く です").take 2)
        ((ofFiles fun _ => .error .notFound).stateAfterTexts callLimit ["です"]
          namelessUnit)).output = "" ∧
      (Act.runWords ((ofFiles fun _ => .error .notFound).execute callLimit)
        ((Word.scan "「名」書く です").take 2)
        ((ofFiles fun _ => .error .notFound).stateAfterTexts callLimit ["です"]
          namelessUnit)).state.mode = .compiling ∧
      ((Operation.eval "です").act (ofFiles fun _ => .error .notFound) callLimit namelessUnit).state =
        ((ofFiles fun _ => .error .notFound).run callLimit "です" namelessUnit).state.reset := by
  have hstarved : namelessUnit.Starved := by
    show 0 < 1
    decide
  obtain ⟨-, htexts, hoperations⟩ :=
    starved_unit_never_finished (ofFiles fun _ => .error .notFound) callLimit
  obtain ⟨-, hmode, hsilent, -⟩ := htexts ["です"] "「名」書く です" 2 namelessUnit hstarved
  have hfreed : ¬ ((Operation.eval "です").act (ofFiles fun _ => .error .notFound) callLimit
      namelessUnit).state.Starved := by
    have hdepth : ((Operation.eval "です").act (ofFiles fun _ => .error .notFound) callLimit
      namelessUnit).state.depth = 0 := by decide +kernel
    unfold State.Starved
    omega
  have hfree := hoperations (.eval "です") namelessUnit hstarved hfreed
  refine ⟨hstarved, by decide +kernel, hsilent, hmode, ?_⟩
  rcases hfree with hintervenes | ⟨line, e, hop, -, hreset⟩
  · exact hintervenes.elim
  · cases hop
    exact hreset

end World

end WordMachine
