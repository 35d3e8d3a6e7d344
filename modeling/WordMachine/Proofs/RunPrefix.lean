import WordMachine.Machine.Run
import WordMachine.Proofs.Compiling

/-!
# The first tokens of a run

`stateAfter call ts s k` is the state in which the first `k` of the tokens `ts` leave a machine that
started in `s`. A run that got through `k + 1` tokens got through `k`, and the last of them was run in
the state after the others; so whatever holds of every such state is proved by induction on `k`, one
token at a time. `passed` counts the tokens that a run gets through before one fails.
-/

namespace WordMachine.Act

variable {Op : Type} {call : Call Op} {ts : List Token} {s : State Op} {k : Nat} {t : Token}

/-- The state after the first `k` tokens. -/
def stateAfter (call : Call Op) (ts : List Token) (s : State Op) (k : Nat) : State Op :=
  (interpret call (ts.take k) s).state

/-- Whether the first `k` tokens run without a failure. -/
def GetsThrough (call : Call Op) (ts : List Token) (s : State Op) (k : Nat) : Prop :=
  (interpret call (ts.take k) s).result = .ok ()

theorem stateAfter_zero : stateAfter call ts s 0 = s := rfl

theorem runToken_of_compiling (h : 0 < s.depth) : runToken call t s = compile t s := by
  rw [runToken, get_bind_apply, if_pos h]

theorem interpret_take_succ (ht : ts[k]? = some t) :
    interpret call (ts.take (k + 1)) = (do interpret call (ts.take k); runToken call t) := by
  have hsplit : ts.take (k + 1) = ts.take k ++ [t] := by
    rw [List.take_add_one, ht]
    rfl
  rw [hsplit, interpret_append]
  simp [interpret]

theorem take_succ_of_none (ht : ts[k]? = none) : ts.take (k + 1) = ts.take k := by
  rw [List.take_add_one, ht]
  simp

theorem GetsThrough.of_succ (h : GetsThrough call ts s (k + 1)) : GetsThrough call ts s k := by
  unfold GetsThrough at h ⊢
  cases ht : ts[k]? with
  | none => rwa [take_succ_of_none ht] at h
  | some t =>
    rw [interpret_take_succ ht] at h
    cases hr : (interpret call (ts.take k) s).result with
    | ok u => rfl
    | error e =>
      rw [bind_apply_of_error hr] at h
      cases h

theorem GetsThrough.mono {j : Nat} (h : GetsThrough call ts s k) (hj : j ≤ k) :
    GetsThrough call ts s j := by
  induction k with
  | zero =>
    obtain rfl : j = 0 := by omega
    exact h
  | succ k ih =>
    by_cases hlast : j = k + 1
    · rw [hlast]
      exact h
    · exact ih h.of_succ (by omega)

/-- The token at index `k` is run in the state after the first `k`. -/
theorem interpret_take_succ_apply (h : GetsThrough call ts s k) (ht : ts[k]? = some t) :
    (interpret call (ts.take (k + 1)) s).result = (runToken call t (stateAfter call ts s k)).result ∧
      stateAfter call ts s (k + 1) = (runToken call t (stateAfter call ts s k)).state := by
  have hrun := bind_apply_of_ok (f := fun _ => runToken call t) h
  rw [stateAfter, stateAfter, interpret_take_succ ht, hrun]
  exact ⟨rfl, rfl⟩

/-- A token that was compiled without a failure led to the compiled state. -/
theorem stateAfter_succ_of_compiling (h : GetsThrough call ts s (k + 1)) (ht : ts[k]? = some t)
    (hd : 0 < (stateAfter call ts s k).depth) :
    (t.wantsTop = true → (stateAfter call ts s k).stack ≠ []) ∧
      stateAfter call ts s (k + 1) = (stateAfter call ts s k).compiled t := by
  obtain ⟨hr, hs⟩ := interpret_take_succ_apply h.of_succ ht
  rw [runToken_of_compiling hd] at hr hs
  have htop : t.wantsTop = true → (stateAfter call ts s k).stack ≠ [] := by
    intro hw hnil
    rw [GetsThrough, hr, compile_apply_of_nil hw hnil] at h
    cases h
  refine ⟨htop, ?_⟩
  rw [hs, compile_apply htop]

/-! ## Runs that start with a token -/

section FirstToken

variable (h : (runToken call t s).result = .ok ())
include h

theorem interpret_take_cons (ts : List Token) (k : Nat) :
    interpret call ((t :: ts).take (k + 1)) s =
      (interpret call (ts.take k) (runToken call t s).state).behind (runToken call t s).output
        (runToken call t s).journal := by
  rw [List.take_succ_cons, interpret, bind_apply_of_ok h]
  rfl

theorem stateAfter_cons (ts : List Token) (k : Nat) :
    stateAfter call (t :: ts) s (k + 1) = stateAfter call ts (runToken call t s).state k := by
  rw [stateAfter, interpret_take_cons h]
  rfl

theorem getsThrough_cons (ts : List Token) (k : Nat) :
    GetsThrough call (t :: ts) s (k + 1) ↔ GetsThrough call ts (runToken call t s).state k := by
  rw [GetsThrough, interpret_take_cons h]
  rfl

end FirstToken

/-! ## How far a run gets -/

/-- How many tokens are run before one fails. -/
def passed (call : Call Op) : List Token → State Op → Nat
  | [], _ => 0
  | t :: ts, s =>
    match (runToken call t s).result with
    | .ok _ => passed call ts (runToken call t s).state + 1
    | .error _ => 0

theorem getsThrough_passed (call : Call Op) (ts : List Token) (s : State Op) :
    GetsThrough call ts s (passed call ts s) := by
  induction ts generalizing s with
  | nil => rfl
  | cons t ts ih =>
    rw [passed]
    split
    · rename_i hok
      exact (getsThrough_cons hok ts _).mpr (ih _)
    · rfl

end WordMachine.Act
