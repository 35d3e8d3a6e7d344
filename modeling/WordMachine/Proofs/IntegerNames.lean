import Mathlib.Control.Monad.Basic
import WordMachine.Proofs.Classified
import WordMachine.Proofs.Pieces
import WordMachine.Proofs.Simulation

/-!
# Words that no text can call

A closer defines a word under whatever lies on top of the stack, and a declaration makes it a declarer.
That may be an integer. But the names that a run looks up are texts: the name of a classified token is one,
even that of a number, and 実行 takes nothing else off the stack. So a word under an integer is never
called, and an integer among the declarers opens no unit.

States that differ in such words and declarers only (`State.AgreeOnTexts`) are told apart by no text. Likeness
on texts is a simulation with the texts as the names that are looked up (`simulation_onTexts`). What it needs
from the tokens in the buffer and in the words under texts is that they are classified, and every run keeps
this (`State.Textual`).
-/

namespace WordMachine

variable {Op : Type}

/-- A word of the machine itself whose tokens, if it has any, are classified. Operations of the surrounding
program are left out: they may look at whatever they want. -/
def Definition.Textual : Definition Op → Prop
  | .builtin _ => True
  | .method _ => True
  | .custom _ => False
  | .procedure tokens => ∀ t ∈ tokens, t.Classified

namespace State

/-- Whatever a text can run or call here is classified. Of the words under integers nothing is said. -/
structure Textual (s : State Op) : Prop where
  buffer : ∀ t ∈ s.buffer, t.Classified
  definitions : ∀ (name : String) (d : Definition Op),
    s.dictionary[Value.text name]? = some d → d.Textual

/-- States that differ at most in the words and the declarers that are integers. -/
structure AgreeOnTexts (s r : State Op) : Prop where
  stack : r.stack = s.stack
  buffer : r.buffer = s.buffer
  depth : r.depth = s.depth
  declarers : ∀ name : String, Value.text name ∈ r.declarers ↔ Value.text name ∈ s.declarers
  dictionary : ∀ name : String, r.dictionary[Value.text name]? = s.dictionary[Value.text name]?

/-! ## One compiled token -/

theorem Textual.compiled {s : State Op} (h : s.Textual) {t : Token} (ht : t.Classified) :
    (s.compiled t).Textual where
  buffer := by
    intro u hu
    rcases mem_buffer_of_compiled hu with hold | rfl
    · exact h.buffer u hold
    · exact ht
  definitions := by
    intro name d hd
    rcases getElem?_of_compiled hd with hold | ⟨-, rfl⟩
    · exact h.definitions name d hold
    · exact h.buffer

namespace AgreeOnTexts

variable {s r : State Op} {t : Token}

theorem contains_eq (h : s.AgreeOnTexts r) (name : String) :
    r.declarers.contains (.text name) = s.declarers.contains (.text name) := by
  rw [Bool.eq_iff_iff, Std.ExtTreeSet.contains_iff_mem, Std.ExtTreeSet.contains_iff_mem]
  exact h.declarers name

theorem opens_eq (h : s.AgreeOnTexts r) (ht : t.Classified) : r.opens t = s.opens t := by
  obtain ⟨name, hname⟩ := ht.exists_name_eq
  rw [opens, opens, hname, h.contains_eq]

theorem depthBehind_eq (h : s.AgreeOnTexts r) (ht : t.Classified) :
    r.depthBehind t = s.depthBehind t := by
  rw [depthBehind, depthBehind, h.depth, h.opens_eq ht]

theorem top_eq (h : s.AgreeOnTexts r) : r.top = s.top := by
  rw [top, top, h.stack]

theorem compiled (h : s.AgreeOnTexts r) (ht : t.Classified) :
    (s.compiled t).AgreeOnTexts (r.compiled t) where
  stack := by simp only [State.compiled, h.stack]
  buffer := by simp only [State.compiled, h.buffer, h.depth, h.depthBehind_eq ht]
  depth := h.depthBehind_eq ht
  declarers := by
    intro name
    simp only [State.compiled, h.top_eq]
    split
    · rw [Std.ExtTreeSet.mem_insert, Std.ExtTreeSet.mem_insert, h.declarers]
    · exact h.declarers name
  dictionary := by
    intro name
    simp only [State.compiled, h.top_eq, h.buffer]
    split
    · rw [Std.ExtTreeMap.getElem?_insert, Std.ExtTreeMap.getElem?_insert, h.dictionary]
    · exact h.dictionary name

end AgreeOnTexts

/-- The relation that runs keep. -/
def OnTexts (s r : State Op) : Prop :=
  s.Textual ∧ s.AgreeOnTexts r

end State

/-! ## Likeness on texts is a simulation -/

def Value.IsText (v : Value) : Prop :=
  ∃ name, v = .text name

def Token.SameClassified (t u : Token) : Prop :=
  u = t ∧ t.Classified

theorem tokensRelated_sameClassified : TokensRelated Token.SameClassified Value.IsText where
  kind h := by rw [h.1]
  payload h _ _ := by rw [h.1]
  classified h := ⟨rfl, _, h⟩
  identifier h _ := h.2.exists_name_eq
  text name := ⟨name, rfl⟩

theorem sameStack_onTexts : SameStack (@State.OnTexts Op) where
  stack h := h.2.stack
  restack _ h := ⟨⟨h.1.buffer, h.1.definitions⟩,
    ⟨rfl, h.2.buffer, h.2.depth, h.2.declarers, h.2.dictionary⟩⟩

theorem simulation_onTexts :
    Simulation (fun _ => False) (@State.OnTexts Op) Token.SameClassified Value.IsText where
  toTokensRelated := tokensRelated_sameClassified
  depth h := h.2.depth
  declarers := by
    rintro s r name ⟨-, h⟩ ⟨name, rfl⟩
    exact h.contains_eq name
  enter h := ⟨⟨h.1.buffer, h.1.definitions⟩,
    ⟨h.2.stack, h.2.buffer, congrArg (· + 1) h.2.depth, h.2.declarers, h.2.dictionary⟩⟩
  push := sameStack_onTexts.push
  pop := sameStack_onTexts.pop
  compile := by
    rintro s r t u ⟨hs, h⟩ ⟨rfl, ht⟩ -
    exact sameStack_onTexts.compile ⟨hs, h⟩ rfl ⟨hs.compiled ht, h.compiled ht⟩

namespace World

theorem perform_onTexts (w : World Op) {call call' : Act.Call Op}
    (hcall : Act.CallsSimulated (fun _ => False) State.OnTexts call call' Value.IsText)
    {d : Definition Op} (hd : d.Textual) :
    Act.Simulated (fun _ => False) State.OnTexts (w.perform call d) (w.perform call' d) := by
  cases d with
  | builtin b => exact sameStack_onTexts.builtin simulation_onTexts hcall w.files b
  | method m => exact simulation_onTexts.method m
  | custom op => exact hd.elim
  | procedure tokens => exact simulation_onTexts.interpret hcall fun t ht => ⟨rfl, hd t ht⟩

theorem execute_onTexts (w : World Op) (limit : Nat) :
    Act.CallsSimulated (fun _ => False) State.OnTexts (w.execute limit) (w.execute limit)
      Value.IsText := by
  refine w.execute_simulated (D := fun d d' => d' = d ∧ d.Textual) ?_ ?_ limit
  · rintro s r ⟨hs, h⟩ name ⟨name, rfl⟩
    unfold DefinitionsRelated
    rw [h.dictionary]
    cases hd : s.dictionary[Value.text name]? with
    | none => exact .inl ⟨rfl, rfl⟩
    | some d => exact .inr ⟨d, d, rfl, rfl, rfl, hs.definitions name d hd⟩
  · rintro call call' hcall d d' ⟨rfl, hd⟩
    exact w.perform_onTexts hcall hd

theorem run_onTexts (w : World Op) (limit : Nat) (text : String) :
    Act.Simulated (fun _ => False) State.OnTexts (w.run limit text) (w.run limit text) :=
  simulation_onTexts.runWords (w.execute_onTexts limit) (Word.scan text)

/-- Lines that run alike are answered alike, if the answers leave related states. -/
theorem eval_simulated {R : State Op → State Op → Prop} {w : World Op} {limit : Nat} {line : String}
    (hrun : Act.Simulated (fun _ => False) R (w.run limit line) (w.run limit line))
    (hdepth : ∀ {s r : State Op}, R s r → r.depth = s.depth)
    (hreset : ∀ {s r : State Op}, R s r → R s.reset r.reset) :
    Act.Simulated (fun _ => False) R (w.eval limit line) (w.eval limit line) := by
  intro s r hR _
  obtain ⟨hresult, houtput, hstate⟩ := hrun s r hR fun _ _ => id
  cases hr : (w.run limit line s).result with
  | ok u =>
    rw [eval_of_run_ok hr, eval_of_run_ok (hresult.trans hr)]
    refine ⟨?_, houtput, hstate⟩
    rw [response, response, State.mode, State.mode, hdepth hstate]
  | error f =>
    rw [hr] at hresult
    cases f with
    | error e =>
      rw [eval_of_run_raise hr, eval_of_run_raise hresult]
      exact ⟨rfl, houtput, hreset hstate⟩
    | fault f =>
      rw [eval_of_run_fault hr, eval_of_run_fault hresult]
      exact ⟨rfl, houtput, hstate⟩

theorem eval_onTexts (w : World Op) (limit : Nat) (line : String) :
    Act.Simulated (fun _ => False) State.OnTexts (w.eval limit line) (w.eval limit line) := by
  apply eval_simulated (w.run_onTexts limit line)
  · intro s r h
    exact h.2.depth
  · rintro s r ⟨hs, h⟩
    exact ⟨⟨nofun, hs.definitions⟩, ⟨rfl, rfl, rfl, h.declarers, h.dictionary⟩⟩

end World

/-! ## No text tells them apart -/

/-- Two outcomes that differ at most in the words and the declarers that are integers. -/
structure Outcome.AgreeOnTexts {α : Type} (o p : Outcome Op α) : Prop where
  result : p.result = o.result
  output : p.output = o.output
  state : o.state.AgreeOnTexts p.state

theorem Act.Simulated.agreeOnTexts {α : Type} {m : Act Op α}
    (h : Simulated (fun _ => False) State.OnTexts m m) {s r : State Op} (hs : s.Textual)
    (hr : s.AgreeOnTexts r) : (m s).AgreeOnTexts (m r) ∧ (m s).state.Textual := by
  obtain ⟨hresult, houtput, htextual, hstate⟩ := h s r ⟨hs, hr⟩ fun _ _ => id
  exact ⟨⟨hresult, houtput, hstate⟩, htextual⟩

namespace State

theorem AgreeOnTexts.refl (s : State Op) : s.AgreeOnTexts s :=
  ⟨rfl, rfl, rfl, fun _ => .rfl, fun _ => rfl⟩

/-- An integer may name anything. -/
theorem AgreeOnTexts.bind_int {s r : State Op} (h : s.AgreeOnTexts r) (n : Int) (d : Definition Op) :
    s.AgreeOnTexts { r with dictionary := r.dictionary.insert (.int n) d } where
  stack := h.stack
  buffer := h.buffer
  depth := h.depth
  declarers := h.declarers
  dictionary := by
    intro name
    rw [Std.ExtTreeMap.getElem?_insert, if_neg (by simp [Value.compare_int_text])]
    exact h.dictionary name

/-- An integer may be a declarer or not. -/
theorem AgreeOnTexts.declare_int {s r : State Op} (h : s.AgreeOnTexts r) (n : Int) :
    s.AgreeOnTexts { r with declarers := r.declarers.insert (.int n) } where
  stack := h.stack
  buffer := h.buffer
  depth := h.depth
  declarers := by
    intro name
    rw [Std.ExtTreeSet.mem_insert, h.declarers]
    simp [Value.compare_int_text]
  dictionary := h.dictionary

end State

namespace World

/-- **Integer names are dead.** From states that differ only in the words under integers and in the integers
among the declarers, every text runs and every line is evaluated to the same end or answer, after the same
output, and into states that again differ in such words and declarers only. So whatever an integer is made
the name of, be it an operation of the surrounding program, no text ever executes it. -/
theorem no_text_calls_integer_names (w : World Op) (limit : Nat) (text : String) {s r : State Op}
    (hs : s.Textual) (h : s.AgreeOnTexts r) :
    ((w.run limit text s).AgreeOnTexts (w.run limit text r) ∧ (w.run limit text s).state.Textual) ∧
      ((w.eval limit text s).AgreeOnTexts (w.eval limit text r) ∧
        (w.eval limit text s).state.Textual) ∧
      ∀ (n : Int) (d : Definition Op),
        (w.run limit text s).AgreeOnTexts
            (w.run limit text { s with dictionary := s.dictionary.insert (.int n) d }) ∧
          (w.eval limit text s).AgreeOnTexts
            (w.eval limit text { s with dictionary := s.dictionary.insert (.int n) d }) := by
  have hrun := w.run_onTexts limit text
  have heval := w.eval_onTexts limit text
  refine ⟨hrun.agreeOnTexts hs h, heval.agreeOnTexts hs h, ?_⟩
  intro n d
  have hbound := (State.AgreeOnTexts.refl s).bind_int n d
  exact ⟨(hrun.agreeOnTexts hs hbound).1, (heval.agreeOnTexts hs hbound).1⟩

/-- A machine that can execute a word by its name. -/
def performing : State Empty :=
  ⟨(∅ : Dictionary Empty).insert (.text "実行") (.builtin .perform), [], [], 0, ∅⟩

/-- The same machine where the integer 5 is a word that pushes 1, and a declarer. -/
def performingWithFive : State Empty :=
  { performing with
    dictionary := performing.dictionary.insert (.int 5) (.procedure [⟨.number, .int 1, "1"⟩])
    declarers := performing.declarers.insert (.int 5) }

/-- The text defines a word under the integer 5 again and executes what is called 5, and finds nothing. -/
theorem no_text_calls_integer_names_five :
    performing.Textual ∧ performing.AgreeOnTexts performingWithFive ∧
      ((ofFiles fun _ => .error .notFound).run callLimit "5 は 2 です 「5」実行"
        performingWithFive).result = .error (.error (.unknownName "5")) ∧
      ((ofFiles fun _ => .error .notFound).eval callLimit "5 は 2 です 「5」実行"
        performingWithFive).result = .ok (.trouble "unknown name: 5") := by
  have htextual : performing.Textual := by
    refine ⟨nofun, ?_⟩
    intro name d hd
    simp only [performing, Std.ExtTreeMap.getElem?_insert] at hd
    split at hd
    · cases hd
      trivial
    · simp at hd
  have hagree : performing.AgreeOnTexts performingWithFive :=
    ((State.AgreeOnTexts.refl performing).bind_int 5 _).declare_int 5
  obtain ⟨⟨hrun, -⟩, ⟨heval, -⟩, -⟩ := no_text_calls_integer_names
    (ofFiles fun _ => .error .notFound) callLimit "5 は 2 です 「5」実行" htextual hagree
  refine ⟨htextual, hagree, ?_, ?_⟩
  · rw [hrun.result]
    decide +kernel
  · rw [heval.result]
    decide +kernel

end World

end WordMachine
