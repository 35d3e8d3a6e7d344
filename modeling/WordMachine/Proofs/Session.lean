import WordMachine.Proofs.OpenUnits
import WordMachine.Proofs.Pieces

/-!
# Sessions at the console

A session is a sequence of lines, each evaluated in the state that the one before it left. Evaluating a
line is running it and answering; after an error the stack and the open units are dropped, and the rest
is as the failing token left it.

Nothing in a session takes a word or a declarer away. A state `Extends` another if every declarer is
still there and every name still has its definition, or one that was compiled since. To extend a given
state is an `Invariant`, so it is kept token by token through calls and loaded sources, and by a failure
anywhere in them.
-/

namespace WordMachine

variable {Op : Type}

namespace State

/-- Nothing that was defined is gone. -/
structure Extends (s r : State Op) : Prop where
  /-- A definition is still there, or a compiled one has taken its place. -/
  definitions : ∀ (name : Value) (d : Definition Op), s.dictionary[name]? = some d →
    r.dictionary[name]? = some d ∨ ∃ tokens, r.dictionary[name]? = some (.procedure tokens)
  declarers : ∀ name ∈ s.declarers, name ∈ r.declarers

namespace Extends

theorem refl (s : State Op) : s.Extends s :=
  ⟨fun _ _ h => .inl h, fun _ h => h⟩

theorem trans {s r q : State Op} (h : s.Extends r) (h' : r.Extends q) : s.Extends q := by
  refine ⟨fun name d hd => ?_, fun name hname => h'.declarers name (h.declarers name hname)⟩
  obtain hd | ⟨tokens, htokens⟩ := h.definitions name d hd
  · exact h'.definitions name d hd
  · right
    obtain htokens | hlater := h'.definitions name _ htokens
    · exact ⟨tokens, htokens⟩
    · exact hlater

theorem mem {s r : State Op} (h : s.Extends r) {name : Value} (hname : name ∈ s.dictionary) :
    name ∈ r.dictionary := by
  rw [Std.ExtTreeMap.mem_iff_isSome_getElem?] at hname ⊢
  obtain ⟨d, hd⟩ := Option.isSome_iff_exists.mp hname
  obtain hd | ⟨tokens, htokens⟩ := h.definitions name d hd
  · rw [hd]; rfl
  · rw [htokens]; rfl

end Extends

/-- Compiling a token defines a word or adds a declarer, if anything. -/
theorem extends_compiled (s : State Op) (t : Token) : s.Extends (s.compiled t) where
  definitions name d hd := by
    unfold compiled
    by_cases hc : t.isCloser = true
    · simp only [if_pos hc, Std.ExtTreeMap.getElem?_insert]
      by_cases htop : compare s.top name = .eq
      · right
        exact ⟨s.buffer, by rw [if_pos htop]⟩
      · left
        rw [if_neg htop, hd]
    · left
      simpa only [if_neg hc] using hd
  declarers name hname := by
    unfold compiled
    by_cases hd : t.kind = .declaration
    · simp only [if_pos hd, Std.ExtTreeSet.mem_insert]
      exact .inr hname
    · simpa only [if_neg hd] using hname

theorem extends_reset (s : State Op) : s.Extends s.reset :=
  ⟨fun _ _ h => .inl h, fun _ h => h⟩

end State

theorem invariant_extends (s : State Op) : Invariant s.Extends where
  restack _ h := ⟨h.definitions, h.declarers⟩
  enter h := ⟨h.definitions, h.declarers⟩
  compiled t _ h := h.trans (State.extends_compiled _ t)

/-! ## Machines without operations of their own -/

namespace World

variable (w : World Empty) (limit : Nat)

theorem extends_runToken (t : Token) (s : State Empty) :
    s.Extends (Act.runToken (w.execute limit) t s).state :=
  ((invariant_extends s).simulation.runToken
    ((invariant_extends s).execute (fun op => op.elim) limit) rfl).keeps (.refl s)

theorem extends_runWords (ws : List Word) (s : State Empty) :
    s.Extends (Act.runWords (w.execute limit) ws s).state :=
  (invariant_extends s).state_runWords (fun op => op.elim) limit ws (.refl s)

/-- What the first words of a text defined is there at its end, also if a word behind them fails. -/
theorem extends_run_of_take (text : String) (k : Nat) (s : State Empty) :
    (Act.runWords (w.execute limit) ((Word.scan text).take k) s).state.Extends
      (w.run limit text s).state := by
  have hsplit : w.run limit text = (do
      Act.runWords (w.execute limit) ((Word.scan text).take k)
      Act.runWords (w.execute limit) ((Word.scan text).drop k)) := by
    rw [← Act.runWords_append, List.take_append_drop]
    rfl
  rw [hsplit]
  cases hr : (Act.runWords (w.execute limit) ((Word.scan text).take k) s).result with
  | ok u =>
    rw [Act.bind_apply_of_ok hr]
    exact w.extends_runWords limit _ _
  | error e =>
    rw [Act.bind_apply_of_error hr]
    exact .refl _

theorem eval_extends_run (line : String) (s : State Empty) :
    (w.run limit line s).state.Extends (w.eval limit line s).state := by
  cases hr : (w.run limit line s).result with
  | ok u =>
    rw [eval_of_run_ok hr]
    exact .refl _
  | error f =>
    cases f with
    | error e =>
      rw [eval_of_run_raise hr]
      exact State.extends_reset _
    | fault f =>
      rw [eval_of_run_fault hr]
      exact .refl _

/-- An evaluation `p` that is the run `o` and an answer to it. -/
structure Answers (o : Outcome Empty Unit) (p : Outcome Empty Response) : Prop where
  output : p.output = o.output
  journal : p.journal = o.journal
  /-- Behind a normal end the state stays, and the answer tells whether a unit is open. -/
  ended : o.result = .ok () →
    p.result.map Response.text = .ok (if 0 < o.state.depth then " compiled" else " ok") ∧
      p.state = o.state ∧ (p.state.depth = 0 → p.state.buffer = [])
  /-- Behind an error only the words and the declarers stay. -/
  raised : ∀ e, o.result = .error (.error e) →
    p.result.map Response.text = .ok (" ? " ++ e.message) ∧
      p.state = ⟨o.state.dictionary, [], [], 0, o.state.declarers⟩
  /-- A fault is not answered. -/
  escaped : ∀ f, o.result = .error (.fault f) → p.result = .error (.fault f) ∧ p.state = o.state

theorem text_response (s : State Empty) :
    (response s).text = if 0 < s.depth then " compiled" else " ok" := by
  unfold response State.mode
  by_cases hd : 0 < s.depth
  · rw [if_pos hd, if_pos hd]
    rfl
  · rw [if_neg hd, if_neg hd]
    rfl

theorem eval_answers (line : String) {s : State Empty} (hs : s.Consistent) :
    Answers (w.run limit line s) (w.eval limit line s) := by
  have hconsistent := eval_consistent (w := w) (fun op => op.elim) limit line hs
  cases hr : (w.run limit line s).result with
  | ok u =>
    rw [eval_of_run_ok hr] at hconsistent ⊢
    refine ⟨rfl, rfl, fun _ => ⟨?_, rfl, hconsistent⟩, ?_, ?_⟩
    · exact congrArg Except.ok (text_response _)
    · intro e he
      cases hr.symm.trans he
    · intro f hf
      cases hr.symm.trans hf
  | error f =>
    cases f with
    | error e =>
      rw [eval_of_run_raise hr]
      refine ⟨rfl, rfl, fun hok => ?_, fun e' he => ?_, fun f hf => ?_⟩
      · cases hr.symm.trans hok
      · cases hr.symm.trans he
        exact ⟨rfl, rfl⟩
      · cases hr.symm.trans hf
    | fault f =>
      rw [eval_of_run_fault hr]
      refine ⟨rfl, rfl, fun hok => ?_, fun e he => ?_, fun f' hf => ?_⟩
      · cases hr.symm.trans hok
      · cases hr.symm.trans he
      · cases hr.symm.trans hf
        exact ⟨rfl, rfl⟩

/-! ## Whole sessions -/

/-- The state that a session ends in. -/
def stateAfterLines (lines : List String) (s : State Empty) : State Empty :=
  lines.foldl (fun s line => (w.eval limit line s).state) s

theorem stateAfterLines_append (lines more : List String) (s : State Empty) :
    w.stateAfterLines limit (lines ++ more) s =
      w.stateAfterLines limit more (w.stateAfterLines limit lines s) :=
  List.foldl_append

/-- What every line of a session keeps, the session keeps. -/
theorem stateAfterLines_keeps {P : State Empty → Prop} {lines : List String}
    (h : ∀ line ∈ lines, ∀ s, P s → P (w.eval limit line s).state) {s : State Empty} (hs : P s) :
    P (w.stateAfterLines limit lines s) := by
  induction lines generalizing s with
  | nil => exact hs
  | cons line lines ih =>
    exact ih (fun later hlater => h later (by simp [hlater])) (h line (by simp) s hs)

theorem extends_stateAfterLines (lines : List String) (s : State Empty) :
    s.Extends (w.stateAfterLines limit lines s) := by
  refine w.stateAfterLines_keeps limit (fun line _ r hr => ?_) (.refl s)
  exact (invariant_extends s).state_eval (fun op => op.elim)
    (fun r hr => hr.trans (State.extends_reset r)) limit line hr

theorem consistent_stateAfterLines (lines : List String) {s : State Empty} (hs : s.Consistent) :
    (w.stateAfterLines limit lines s).Consistent :=
  w.stateAfterLines_keeps limit (fun line _ _ => eval_consistent (fun op => op.elim) limit line) hs

/-- **A session at the console.** On a new machine, with the built-in words or without:

* Each line, whatever came before it, is evaluated as it runs, and answered. The definitions that the
  words before any point of the line completed are there when it is answered.
* From one line to any later one no name of the dictionary and no declarer disappears; and no token takes
  any away, in whatever state and at whatever depth of calls it is run. -/
theorem session_answers (w : World Empty) (limit : Nat) (start : State Empty)
    (hstart : start = .new ∨ ∃ encoding, start = State.new.install encoding) :
    (∀ (lines : List String) (line : String),
      Answers (w.run limit line (w.stateAfterLines limit lines start))
          (w.eval limit line (w.stateAfterLines limit lines start)) ∧
        ∀ k, (Act.runWords (w.execute limit) ((Word.scan line).take k)
            (w.stateAfterLines limit lines start)).state.Extends
          (w.eval limit line (w.stateAfterLines limit lines start)).state) ∧
    (∀ lines more : List String,
      (∀ name ∈ (w.stateAfterLines limit lines start).dictionary,
        name ∈ (w.stateAfterLines limit (lines ++ more) start).dictionary) ∧
      ∀ name ∈ (w.stateAfterLines limit lines start).declarers,
        name ∈ (w.stateAfterLines limit (lines ++ more) start).declarers) ∧
    ∀ (deeper : Nat) (t : Token) (s : State Empty),
      s.Extends (Act.runToken (w.execute deeper) t s).state := by
  have hconsistent : start.Consistent := by
    rcases hstart with rfl | ⟨encoding, rfl⟩
    · exact fun _ => rfl
    · exact fun _ => rfl
  refine ⟨fun lines line => ⟨?_, fun k => ?_⟩, fun lines more => ?_, ?_⟩
  · exact w.eval_answers limit line (w.consistent_stateAfterLines limit lines hconsistent)
  · exact (w.extends_run_of_take limit line k _).trans (w.eval_extends_run limit line _)
  · rw [stateAfterLines_append]
    have hmore := w.extends_stateAfterLines limit more (w.stateAfterLines limit lines start)
    exact ⟨fun _ => hmore.mem, hmore.declarers⟩
  · exact fun deeper t s => w.extends_runToken deeper t s

/-- A line that defines a word and then fails, behind a line that defines another. -/
theorem session_answers_unknown :
    let w := ofFiles fun _ => .error .notFound
    let s := w.stateAfterLines callLimit ["「三」は 3 です"] (State.new.install (some "utf-8"))
    let p := w.eval callLimit "「四」は 4 です 1 謎" s
    p.result.map Response.text = .ok " ? unknown name: 謎" ∧ p.state.stack = [] ∧
      Value.text "三" ∈ p.state.dictionary ∧ Value.text "四" ∈ p.state.dictionary := by
  intro w s p
  obtain ⟨hlines, hkept, -⟩ := session_answers w callLimit
    (State.new.install (some "utf-8")) (.inr ⟨_, rfl⟩)
  obtain ⟨hanswers, hwords⟩ := hlines ["「三」は 3 です"] "「四」は 4 です 1 謎"
  have hrun : (w.run callLimit "「四」は 4 です 1 謎" s).result =
      .error (.error (.unknownName "謎")) := by decide +kernel
  have hthree : Value.text "三" ∈ s.dictionary := by decide +kernel
  have hfour : Value.text "四" ∈ (Act.runWords (w.execute callLimit)
      ((Word.scan "「四」は 4 です 1 謎").take 4) s).state.dictionary := by decide +kernel
  obtain ⟨htext, hstate⟩ := hanswers.raised _ hrun
  refine ⟨htext, ?_, ?_, (hwords 4).mem hfour⟩
  · rw [hstate]
  · exact (hkept ["「三」は 3 です"] ["「四」は 4 です 1 謎"]).1 _ hthree

end World

end WordMachine
