import WordMachine.Proofs.Block
import WordMachine.Proofs.InertCompiling
import WordMachine.Proofs.OpenUnits
import WordMachine.Proofs.Starved

/-!
# Closing all open units

Where every open unit has a name under it, as many closers as units are open take all these names off
the stack and bind them, the top one first. The word of each name is the buffer and the closers that came
before its own (`State.closerBindings`).

Whether the machine is executing again behind them depends on the closer itself. The name です may have
become a declarer; then each closer opens a unit again right behind the one it closed, and the depth stays
what it was. One closer does this (`State.compiled_closer`), and a row of them by induction
(`Act.interpret_closers`).
-/

namespace WordMachine

open Word

variable {Op : Type}

namespace State

/-- What `n` closers in a row bind: the values from the top of the stack on, each to the buffer and the
closers before its own. -/
def closerBindings (s : State Op) (n : Nat) : List (Value × List Token) :=
  (s.stack.take n).mapIdx fun i v => (v, s.buffer ++ List.replicate i Token.closer)

/-- Whether a closer is itself a declarer, so that it opens a unit again. -/
def Reopens (s : State Op) : Prop :=
  Value.text "です" ∈ s.declarers

theorem opens_closer (s : State Op) : s.opens Token.closer = true ↔ s.Reopens := by
  simp [opens, Reopens, Token.closer, Token.identifier, Token.name]

/-- One closer: it binds the top, and the depth falls by one unless the closer opens a unit again. -/
theorem compiled_closer {s : State Op} {v : Value} {vs : List Value} (hs : s.stack = v :: vs) :
    (s.compiled Token.closer).dictionary = s.dictionary.insert v (.procedure s.buffer) ∧
      (s.compiled Token.closer).stack = vs ∧
      (s.compiled Token.closer).declarers = s.declarers ∧
      (s.Reopens → 0 < s.depth → (s.compiled Token.closer).depth = s.depth) ∧
      (¬ s.Reopens → (s.compiled Token.closer).depth = s.depth - 1) := by
  have hcloser : Token.closer.isCloser = true := by decide
  have hkind : Token.closer.kind ≠ .declaration := by decide
  refine ⟨?_, ?_, ?_, fun hopens hd => ?_, fun hopens => ?_⟩
  · simp [compiled, hcloser, top_of_cons hs]
  · simp [compiled, hcloser, hs]
  · simp [compiled, hkind]
  · rw [← opens_closer] at hopens
    simp only [compiled, depthBehind, hcloser, hopens, if_true]
    omega
  · rw [← opens_closer] at hopens
    simp only [compiled, depthBehind, hcloser, hopens, if_true]
    rfl

theorem buffer_compiled_closer {s : State Op} (hd : 1 < s.depth) :
    (s.compiled Token.closer).buffer = s.buffer ++ [Token.closer] :=
  buffer_compiled (by omega) fun _ => hd

/-- The first of some closers binds the top, and the others go on from the buffer with one closer
more. -/
theorem closerBindings_succ {s : State Op} {v : Value} {vs : List Value} {n : Nat}
    (hs : s.stack = v :: vs) (hd : n + 1 ≤ s.depth) :
    s.closerBindings (n + 1) =
      (v, s.buffer) :: (s.compiled Token.closer).closerBindings n := by
  obtain ⟨-, hstack, -⟩ := compiled_closer hs
  cases n with
  | zero => simp [closerBindings, hs]
  | succ n =>
    have hbuffer := buffer_compiled_closer (s := s) (by omega)
    simp [closerBindings, hs, hstack, hbuffer, List.mapIdx_cons, List.replicate_succ]

end State

/-- What `n` closers in a row come to from the state `s`. -/
structure Outcome.ClosesUnits (s : State Op) (n : Nat) (o : Outcome Op Unit) : Prop where
  result : o.result = .ok ()
  output : o.output = ""
  stack : o.state.stack = s.stack.drop n
  dictionary : o.state.dictionary = s.dictionary.bindAll (s.closerBindings n)
  declarers : o.state.declarers = s.declarers
  reopened : s.Reopens → o.state.depth = s.depth
  closed : ¬ s.Reopens → o.state.depth = s.depth - n
  consistent : o.state.Consistent

namespace Act

/-- Closers in a row, not more than there are open units and names for them. -/
theorem interpret_closers (call : Call Op) {n : Nat} {s : State Op} (hd : n ≤ s.depth)
    (hs : n ≤ s.stack.length) (hc : s.Consistent) :
    (interpret call (List.replicate n Token.closer) s).ClosesUnits s n := by
  induction n generalizing s with
  | zero => exact ⟨rfl, rfl, rfl, rfl, rfl, fun _ => rfl, fun _ => rfl, hc⟩
  | succ n ih =>
    have hopen : 0 < s.depth := by omega
    obtain ⟨v, vs, hstack⟩ := List.exists_cons_of_length_pos (l := s.stack) (by omega)
    obtain ⟨hdict, htail, hdeclarers, hreopened, hclosed⟩ := State.compiled_closer hstack
    -- the first closer leaves enough units and names for the others
    have hdepth : n ≤ (s.compiled Token.closer).depth := by
      by_cases hopens : s.Reopens
      · have := hreopened hopens hopen
        omega
      · have := hclosed hopens
        omega
    have hnames : n ≤ (s.compiled Token.closer).stack.length := by
      rw [htail]
      rw [hstack, List.length_cons] at hs
      omega
    have hothers := ih hdepth hnames (State.consistent_compiled hopen _)
    have hfirst : runToken call Token.closer s = _ :=
      runToken_of_top hopen fun _ => by simp [hstack]
    have hsame : (s.compiled Token.closer).Reopens ↔ s.Reopens := by
      rw [State.Reopens, State.Reopens, hdeclarers]
    rw [List.replicate_succ, interpret, bind_apply_ok hfirst]
    refine ⟨hothers.result, ?_, ?_, ?_, ?_, fun hopens => ?_, fun hopens => ?_,
      hothers.consistent⟩
    · rw [Outcome.output_behind, hothers.output, String.append_empty]
    · rw [Outcome.state_behind, hothers.stack, htail, hstack, List.drop_succ_cons]
    · rw [Outcome.state_behind, hothers.dictionary, hdict, State.closerBindings_succ hstack hd]
      rfl
    · rw [Outcome.state_behind, hothers.declarers, hdeclarers]
    · rw [Outcome.state_behind, hothers.reopened (hsame.mpr hopens), hreopened hopens hopen]
    · rw [Outcome.state_behind, hothers.closed (hsame.not.mpr hopens), hclosed hopens]
      omega

end Act

theorem Token.classify_closer : classify "です" = .ok closer := by decide +kernel

theorem Token.mapM_classify_closers (n : Nat) :
    (List.replicate n "です").mapM classify = .ok (List.replicate n closer) := by
  induction n with
  | zero => rfl
  | succ n ih =>
    rw [List.replicate_succ, List.mapM_cons, classify_closer, ih]
    rfl

/-- A text whose words are closers runs as the closers do. -/
theorem Act.runText_closers (call : Call Op) {text : String} {n : Nat}
    (h : (scan text).map Word.text = List.replicate n "です") :
    runText call text = interpret call (List.replicate n Token.closer) := by
  have htokens : Token.tokenize text = .ok (List.replicate n Token.closer) := by
    rw [tokenize_eq_mapM_text, h, Token.mapM_classify_closers]
  exact runWords_eq_interpret call htokens

namespace World

variable {s : State Op} {text : String}

/-- **Every open unit can be closed.** Where each open unit has a name under it, a text of as many closers
as there are open units runs without an error and writes nothing. It takes that many values off the stack
and binds them, the top one first, each to the buffer and the closers before its own. If the closer is no
declarer, the machine is executing behind it and the buffer is empty; if it is one, as many units are open
as before. -/
theorem closers_close_units (w : World Op) (limit : Nat) (hopen : 0 < s.depth)
    (hnames : s.depth ≤ s.stack.length)
    (htext : (scan text).map Word.text = List.replicate s.depth "です") :
    (w.run limit text s).result = .ok () ∧ (w.run limit text s).output = "" ∧
      (w.run limit text s).state.stack = s.stack.drop s.depth ∧
      (w.run limit text s).state.dictionary =
        s.dictionary.bindAll ((s.stack.take s.depth).mapIdx fun i name =>
          (name, s.buffer ++ List.replicate i Token.closer)) ∧
      (w.run limit text s).state.declarers = s.declarers ∧
      (Value.text "です" ∉ s.declarers →
        (w.run limit text s).state.mode = .executing ∧ (w.run limit text s).state.buffer = []) ∧
      (Value.text "です" ∈ s.declarers → (w.run limit text s).state.depth = s.depth) := by
  have hconsistent : s.Consistent := by
    intro hzero
    omega
  have hcloses := Act.interpret_closers (w.execute limit) (Nat.le_refl s.depth) hnames hconsistent
  rw [← Act.runText_closers _ htext] at hcloses
  refine ⟨hcloses.result, hcloses.output, hcloses.stack, hcloses.dictionary, hcloses.declarers,
    fun hother => ?_, hcloses.reopened⟩
  have hzero : (w.run limit text s).state.depth = 0 := by
    rw [run, hcloses.closed hother, Nat.sub_self]
  refine ⟨?_, hcloses.consistent hzero⟩
  unfold State.mode
  rw [if_neg (by omega)]

/-- Two units are open, and under them are the names 内 and 外. -/
def twoOpenUnits : State Empty :=
  (ofFiles fun _ => .error .notFound).stateAfterTexts callLimit
    ["「関数」は は です", "「外」「内」は 関数 2"] (State.new.install (some "utf-8"))

theorem closers_close_units_two :
    twoOpenUnits.depth = 2 ∧ twoOpenUnits.stack = [.text "内", .text "外"] ∧
      ((ofFiles fun _ => .error .notFound).run callLimit "です、です" twoOpenUnits).result = .ok () ∧
      ((ofFiles fun _ => .error .notFound).run callLimit "です、です" twoOpenUnits).state.stack = [] ∧
      ((ofFiles fun _ => .error .notFound).run callLimit "です、です" twoOpenUnits).state.mode =
        .executing ∧
      ((ofFiles fun _ => .error .notFound).run callLimit "です、です" twoOpenUnits).state.dictionary =
        twoOpenUnits.dictionary.bindAll
          [(.text "内", [.identifier "関数", ⟨.number, .int 2, "2"⟩]),
            (.text "外", [.identifier "関数", ⟨.number, .int 2, "2"⟩, Token.closer])] := by
  have hdepth : twoOpenUnits.depth = 2 := by decide +kernel
  have hstack : twoOpenUnits.stack = [.text "内", .text "外"] := by decide +kernel
  have hbuffer : twoOpenUnits.buffer = [.identifier "関数", ⟨.number, .int 2, "2"⟩] := by
    decide +kernel
  have hother : Value.text "です" ∉ twoOpenUnits.declarers := by decide +kernel
  have hwords : (scan "です、です").map Word.text = List.replicate twoOpenUnits.depth "です" := by
    rw [hdepth]
    decide +kernel
  obtain ⟨hresult, -, hempty, hbound, -, hclosed, -⟩ :=
    closers_close_units (ofFiles fun _ => .error .notFound) callLimit (by omega)
      (by rw [hdepth, hstack]; decide) hwords
  refine ⟨hdepth, hstack, hresult, ?_, (hclosed hother).1, ?_⟩
  · rw [hempty, hdepth, hstack]
    rfl
  · rw [hbound, hdepth, hstack, hbuffer]
    rfl

/-- A program can make a declarer of the closer: behind the one closer that the one open unit needs, a
unit is open again. -/
theorem closer_may_reopen :
    let w := ofFiles fun _ => .error .notFound
    let s := w.stateAfterTexts callLimit ["「です」は は"] (State.new.install (some "utf-8"))
    s.mode = .compiling ∧ s.depth ≤ s.stack.length ∧
      (scan "です").map Word.text = List.replicate s.depth "です" ∧
      (w.run callLimit "です" s).result = .ok () ∧
      (w.run callLimit "です" s).state.mode = .compiling ∧
      (w.run callLimit "です" s).state.buffer = [Token.closer] := by
  decide +kernel

end World

end WordMachine
