import Mathlib.Tactic.SplitIfs
import WordMachine.Proofs.Invariant
import WordMachine.Proofs.RunPrefix

/-!
# The buffer belongs to the open units

A machine that never runs short of room has an empty buffer as long as no unit is open (`State.Consistent`).
Tokens of any kind may be run, also such as no text is classified as; words may open a unit that their
caller closes; and an error may surface at any depth of calls. All of this goes token by token, and a
token that is compiled either leaves the state as it is, because it fails, or empties the buffer exactly
when it closes the last unit and opens none (`State.consistent_compiled`). So consistency is an invariant
of the machine (`invariant_consistent`): it is kept by every word (`execute_selfConsistent`) and by every line
that is answered (`eval_consistent`).
-/

namespace WordMachine

variable {Op : Type}

/-- The buffer is empty if no unit is open. -/
def State.Consistent (s : State Op) : Prop :=
  s.depth = 0 → s.buffer = []

/-- An act that closes no unit and leaves the buffer as it is, whether it fails or not. -/
def Act.LeavesUnits (m : Act Op Unit) : Prop :=
  ∀ s, s.depth ≤ (m s).state.depth ∧ (m s).state.buffer = s.buffer

theorem Act.LeavesUnits.consistent {m : Act Op Unit} (h : m.LeavesUnits) {s : State Op}
    (hs : s.Consistent) : (m s).state.Consistent := by
  obtain ⟨hdepth, hbuffer⟩ := h s
  intro hzero
  rw [hbuffer]
  exact hs (by omega)

/-! ## One token -/

/-- A token that leaves no unit open has closed the last one, and emptied the buffer. -/
theorem State.consistent_compiled {s : State Op} (hd : 0 < s.depth) (t : Token) :
    (s.compiled t).Consistent := by
  intro hzero
  have hbehind : s.depthBehind t = 0 := hzero
  -- only a closer lowers the depth, and by one
  have hlast : t.isCloser = true ∧ s.depth ≤ 1 := by
    unfold depthBehind at hbehind
    by_cases hc : t.isCloser = true
    · rw [if_pos hc] at hbehind
      exact ⟨hc, by omega⟩
    · rw [if_neg hc] at hbehind
      omega
  simp [compiled, hlast, hbehind]

namespace Act

variable {s : State Op} {t : Token}

theorem state_of_runToken_error {call : Call Op} (hd : 0 < s.depth) {e : Failure}
    (he : (runToken call t s).result = .error e) : (runToken call t s).state = s := by
  rw [runToken_of_compiling hd] at he ⊢
  rcases compile_cases t s with hfail | hok
  · rw [hfail]
  · rw [hok] at he
    cases he

/-- The depth is never lowered from zero: taken as integers, the depths before and behind a compiled
token differ by what the token closes and opens. -/
theorem depth_of_runToken_ok {call : Call Op} (hd : 0 < s.depth)
    (h : (runToken call t s).result = .ok ()) :
    ((runToken call t s).state.depth : Int) =
      s.depth - (if t.isCloser then 1 else 0) + (if s.opens t then 1 else 0) := by
  rw [runToken_of_compiling hd] at h ⊢
  rcases compile_cases t s with hfail | hok
  · rw [hfail] at h
    cases h
  · rw [hok]
    simp only [State.compiled, State.depthBehind]
    split_ifs <;> omega

end Act

/-! ## Whole runs -/

/-- A state related to itself, if it is consistent. -/
def State.SelfConsistent (s r : State Op) : Prop :=
  r = s ∧ s.Consistent

theorem invariant_consistent : Invariant (@State.Consistent Op) where
  restack _ h := h
  enter _ hzero := by cases hzero
  compiled t hd _ := State.consistent_compiled hd t

theorem sameStack_selfConsistent : SameStack (@State.SelfConsistent Op) :=
  invariant_consistent.sameStack

theorem simulation_selfConsistent :
    Simulation (fun _ => False) (@State.SelfConsistent Op) (· = ·) :=
  invariant_consistent.simulation

theorem Act.Simulated.consistent {α : Type} {m : Act Op α}
    (h : Simulated (fun _ => False) State.SelfConsistent m m) {s : State Op} (hs : s.Consistent) :
    (m s).state.Consistent :=
  h.keeps hs

namespace World

variable {w : World Op} (hnative : ∀ op, (w.custom op).LeavesUnits)
include hnative

theorem execute_selfConsistent (limit : Nat) :
    Act.CallsSimulated (fun _ => False) State.SelfConsistent (w.execute limit)
      (w.execute limit) :=
  invariant_consistent.execute (fun op _ => (hnative op).consistent) limit

theorem eval_consistent (limit : Nat) (line : String) {s : State Op} (hs : s.Consistent) :
    (w.eval limit line s).state.Consistent :=
  invariant_consistent.state_eval (fun op _ => (hnative op).consistent) (fun _ _ _ => rfl) limit line hs

end World

end WordMachine
