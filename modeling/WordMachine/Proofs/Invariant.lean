import WordMachine.Console
import WordMachine.Proofs.Compiling
import WordMachine.Proofs.Simulation

/-!
# Invariants that do not look at the stack

A run touches a property of states that does not depend on the stack at two points only: where a unit is
opened, and where a token is compiled. A property that is kept there is an `Invariant`. Then the machine
simulates itself with the property on both sides, and so whole runs keep it, under any limit on nested
calls and whether they fail or not.
-/

namespace WordMachine

variable {Op α : Type} {P : State Op → Prop}

/-- A state related to itself, if it has the property. -/
def State.Selfsame (P : State Op → Prop) (s r : State Op) : Prop :=
  r = s ∧ P s

/-- A property that no stack changes and that opening a unit and compiling a token keep. -/
structure Invariant (P : State Op → Prop) : Prop where
  restack : ∀ {s : State Op} (vs : List Value), P s → P { s with stack := vs }
  enter : ∀ {s : State Op}, P s → P { s with depth := s.depth + 1 }
  compiled : ∀ {s : State Op} (t : Token), 0 < s.depth → P s → P (s.compiled t)

namespace Invariant

theorem sameStack (inv : Invariant P) : SameStack (State.Selfsame P) where
  stack h := by rw [h.1]
  restack vs h := ⟨by rw [h.1], inv.restack vs h.2⟩

theorem state_compile (inv : Invariant P) {s : State Op} (t : Token) (hd : 0 < s.depth) (hs : P s) :
    P (Act.compile t s).state := by
  rcases Act.compile_cases t s with hfail | hok
  · rw [hfail]
    exact hs
  · rw [hok]
    exact inv.compiled t hd hs

theorem simulation (inv : Invariant P) :
    Simulation (fun _ => False) (State.Selfsame P) (· = ·) where
  toTokensRelated := tokensRelated_eq
  depth h := by rw [h.1]
  declarers h _ := by rw [h.1]
  enter h := ⟨by rw [h.1], inv.enter h.2⟩
  push := inv.sameStack.push
  pop := inv.sameStack.pop
  compile := by
    rintro s r t u ⟨rfl, hs⟩ rfl hd -
    exact ⟨rfl, rfl, rfl, inv.state_compile t hd hs⟩

end Invariant

/-- An act that simulates itself keeps the property. -/
theorem Act.Simulated.keeps {m : Act Op α}
    (h : Simulated (fun _ => False) (State.Selfsame P) m m) {s : State Op} (hs : P s) :
    P (m s).state :=
  (h s s ⟨rfl, hs⟩ fun _ _ => id).2.2.2

namespace Invariant

variable {w : World Op} (inv : Invariant P)
  (hnative : ∀ op s, P s → P (w.custom op s).state)
include inv hnative

theorem perform {call call' : Act.Call Op}
    (hcall : Act.CallsSimulated (fun _ => False) (State.Selfsame P) call call')
    (d : Definition Op) :
    Act.Simulated (fun _ => False) (State.Selfsame P) (w.perform call d) (w.perform call' d) := by
  cases d with
  | builtin b => exact inv.sameStack.builtin inv.simulation hcall w.files b
  | method m => exact inv.simulation.method m
  | custom op =>
    rintro s r ⟨rfl, hs⟩ -
    exact ⟨rfl, rfl, rfl, hnative op _ hs⟩
  | procedure tokens => exact inv.simulation.interpret hcall fun _ _ => rfl

theorem execute (limit : Nat) :
    Act.CallsSimulated (fun _ => False) (State.Selfsame P) (w.execute limit) (w.execute limit) := by
  refine w.execute_simulated (D := (· = ·)) ?_ ?_ limit
  · rintro s r ⟨rfl, -⟩ name -
    exact .of_dictionary_eq rfl fun d _ => rfl
  · rintro call call' hcall d d' rfl
    exact inv.perform hnative hcall d

theorem state_runWords (limit : Nat) (ws : List Word) {s : State Op} (hs : P s) :
    P (Act.runWords (w.execute limit) ws s).state :=
  (inv.simulation.runWords (inv.execute hnative limit) ws).keeps hs

theorem state_run (limit : Nat) (text : String) {s : State Op} (hs : P s) :
    P (w.run limit text s).state :=
  inv.state_runWords hnative limit (Word.scan text) hs

theorem state_eval (hreset : ∀ s : State Op, P s → P s.reset) (limit : Nat) (line : String)
    {s : State Op} (hs : P s) : P (w.eval limit line s).state := by
  have hrun := inv.state_run hnative limit line hs
  rw [World.eval, Act.answered]
  cases hr : (w.run limit line s).result with
  | ok u => exact hrun
  | error f =>
    cases f with
    | error e => exact hreset _ hrun
    | fault f => exact hrun

end Invariant

end WordMachine
