import Mathlib.Tactic.SplitIfs
import WordMachine.Proofs.RunPrefix

/-!
# Nested units share one buffer

Inside an open unit every token goes into the one buffer, whatever it does besides: open a further
unit, close one, or name a declarer. Closing an inner unit stores the buffer as it stands and leaves it
in place, so the word of an inner unit also holds what the outer units had read before it.

This holds of every run that starts inside a unit, up to the closer that meets the
last open unit (`StaysOpen`). The invariant is `BufferedUpTo`: after `k` tokens the buffer holds
exactly these tokens behind what it held at first, a unit is open, and the depth is the first one plus
the openings minus the closings. One token keeps it (`BufferedUpTo.succ`), so all do.
-/

namespace WordMachine.Act

variable {Op : Type} {call : Call Op} {ts : List Token} {s : State Op} {k : Nat} {t : Token}

/-- Whether the token at index `j` is a closer. -/
def closesAt (ts : List Token) (j : Nat) : Bool :=
  ts[j]?.any Token.isCloser

/-- Whether the token at index `j` is an identifier that was among the declarers when its turn
came. -/
def opensAt (call : Call Op) (ts : List Token) (s : State Op) (j : Nat) : Bool :=
  ts[j]?.any (stateAfter call ts s j).opens

/-- How many of the first `k` tokens are closers. -/
def closings (ts : List Token) (k : Nat) : Nat :=
  (List.range k).countP (closesAt ts)

/-- How many of the first `k` tokens open a unit. -/
def openings (call : Call Op) (ts : List Token) (s : State Op) (k : Nat) : Nat :=
  (List.range k).countP (opensAt call ts s)

/-- The first `k` tokens ran without a failure, and no closer among them met the last open unit. -/
structure StaysOpen (call : Call Op) (ts : List Token) (s : State Op) (k : Nat) : Prop where
  through : GetsThrough call ts s k
  inner : ∀ j < k, closesAt ts j = true → (stateAfter call ts s j).depth ≠ 1

theorem StaysOpen.mono {j : Nat} (h : StaysOpen call ts s k) (hj : j ≤ k) :
    StaysOpen call ts s j :=
  ⟨h.through.mono hj, fun i hi => h.inner i (by omega)⟩

/-- The token at index `j` took a name off the stack and stored `tokens` under it. -/
def StoresAt (call : Call Op) (ts : List Token) (s : State Op) (j : Nat) (tokens : List Token) :
    Prop :=
  ∃ name below, (stateAfter call ts s j).stack = name :: below ∧
    (stateAfter call ts s (j + 1)).stack = below ∧
    (stateAfter call ts s (j + 1)).dictionary =
      (stateAfter call ts s j).dictionary.insert name (.procedure tokens)

/-! ## Counting -/

theorem closings_succ (ts : List Token) (k : Nat) :
    closings ts (k + 1) = closings ts k + (if closesAt ts k then 1 else 0) := by
  simp [closings, List.range_succ, List.countP_append, List.countP_cons]

theorem openings_succ (call : Call Op) (ts : List Token) (s : State Op) (k : Nat) :
    openings call ts s (k + 1) =
      openings call ts s k + (if opensAt call ts s k then 1 else 0) := by
  simp [openings, List.range_succ, List.countP_append, List.countP_cons]

theorem closesAt_of_some (ht : ts[k]? = some t) : closesAt ts k = t.isCloser := by
  simp [closesAt, ht]

theorem opensAt_of_some (ht : ts[k]? = some t) :
    opensAt call ts s k = (stateAfter call ts s k).opens t := by
  simp [opensAt, ht]

theorem exists_of_closesAt {j : Nat} (h : closesAt ts j = true) :
    ∃ t, ts[j]? = some t ∧ t.isCloser = true := by
  cases ht : ts[j]? with
  | none => simp [closesAt, ht] at h
  | some t => exact ⟨t, rfl, by simpa [closesAt, ht] using h⟩

/-! ## The invariant -/

/-- What holds after `k` tokens inside an open unit. -/
structure BufferedUpTo (call : Call Op) (ts : List Token) (s : State Op) (k : Nat) : Prop where
  buffer : (stateAfter call ts s k).buffer = s.buffer ++ ts.take k
  depth : (stateAfter call ts s k).depth + closings ts k = s.depth + openings call ts s k
  compiling : 0 < (stateAfter call ts s k).depth

theorem BufferedUpTo.zero (hd : 0 < s.depth) : BufferedUpTo call ts s 0 :=
  ⟨by simp [stateAfter_zero], by simp [stateAfter_zero, closings, openings], hd⟩

theorem BufferedUpTo.succ (hk : BufferedUpTo call ts s k) (h : StaysOpen call ts s (k + 1)) :
    BufferedUpTo call ts s (k + 1) := by
  cases ht : ts[k]? with
  | none =>
    have hsame : stateAfter call ts s (k + 1) = stateAfter call ts s k := by
      rw [stateAfter, take_succ_of_none ht]
      rfl
    refine ⟨?_, ?_, ?_⟩
    · rw [hsame, hk.buffer, take_succ_of_none ht]
    · simpa [hsame, openings_succ, closings_succ, closesAt, opensAt, ht] using hk.depth
    · rw [hsame]
      exact hk.compiling
  | some t =>
    obtain ⟨-, hs⟩ := stateAfter_succ_of_compiling h.through ht hk.compiling
    have hpos := hk.compiling
    have hcount := hk.depth
    -- a closer among these tokens leaves at least one unit open, so nothing is dropped
    have hinner : t.isCloser = true → 1 < (stateAfter call ts s k).depth := by
      intro hc
      have := h.inner k (by omega) ((closesAt_of_some ht).trans hc)
      omega
    refine ⟨?_, ?_, ?_⟩
    · rw [hs, State.buffer_compiled hpos hinner, hk.buffer, List.append_assoc, List.take_add_one, ht]
      rfl
    · rw [openings_succ, closings_succ, closesAt_of_some ht, opensAt_of_some ht, hs]
      simp only [State.compiled, State.depthBehind]
      split_ifs <;> omega
    · rw [hs]
      exact State.depthBehind_pos hpos hinner

theorem StaysOpen.bufferedUpTo (h : StaysOpen call ts s k) (hd : 0 < s.depth) :
    BufferedUpTo call ts s k := by
  induction k with
  | zero => exact BufferedUpTo.zero hd
  | succ k ih => exact (ih (h.mono (by omega))).succ h

/-! ## What closers store -/

theorem BufferedUpTo.storesAt (hk : BufferedUpTo call ts s k) (h : GetsThrough call ts s (k + 1))
    (ht : ts[k]? = some t) (hc : t.isCloser = true) :
    StoresAt call ts s k (s.buffer ++ ts.take k) := by
  obtain ⟨htop, hs⟩ := stateAfter_succ_of_compiling h ht hk.compiling
  obtain ⟨name, below, hstack⟩ :=
    List.exists_cons_of_ne_nil (htop (Token.wantsTop_of_isCloser hc))
  refine ⟨name, below, hstack, ?_, ?_⟩
  · simp [hs, State.compiled, hc, hstack]
  · simp [hs, State.compiled, hc, State.top_of_cons hstack, hk.buffer]

theorem BufferedUpTo.getsThrough_succ (hk : BufferedUpTo call ts s k)
    (h : GetsThrough call ts s k) (ht : ts[k]? = some t)
    (hne : (stateAfter call ts s k).stack ≠ []) : GetsThrough call ts s (k + 1) := by
  rw [GetsThrough, (interpret_take_succ_apply h ht).1, runToken_of_compiling hk.compiling,
    compile_apply fun _ => hne]

/-- The closer that meets the last open unit ends the buffer, unless it is itself a declarer: then it
is the first token of a new one. -/
theorem BufferedUpTo.last_closer (hk : BufferedUpTo call ts s k)
    (h : GetsThrough call ts s (k + 1)) (ht : ts[k]? = some t) (hc : t.isCloser = true)
    (hone : (stateAfter call ts s k).depth = 1) :
    if (stateAfter call ts s k).opens t then
      (stateAfter call ts s (k + 1)).depth = 1 ∧ (stateAfter call ts s (k + 1)).buffer = [t]
    else (stateAfter call ts s (k + 1)).depth = 0 ∧ (stateAfter call ts s (k + 1)).buffer = [] := by
  obtain ⟨-, hs⟩ := stateAfter_succ_of_compiling h ht hk.compiling
  rw [hs]
  split_ifs with ho
  · simp [State.compiled, State.depthBehind, hc, hone, ho]
  · simp [State.compiled, State.depthBehind, hc, hone, ho]

theorem StoresAt.unique {p q : List Token} (hp : StoresAt call ts s k p)
    (hq : StoresAt call ts s k q) : p = q := by
  obtain ⟨name, below, hstack, -, hdict⟩ := hp
  obtain ⟨name', below', hstack', -, hdict'⟩ := hq
  obtain ⟨rfl, rfl⟩ := List.cons.inj (hstack.symm.trans hstack')
  have hlookup := congrArg (·[name]?) (hdict.symm.trans hdict')
  simpa using hlookup

theorem take_prefix_take_ne {i j : Nat} {u : Token} (b : List Token) (hij : i < j)
    (hu : ts[j]? = some u) :
    b ++ ts.take i <+: b ++ ts.take j ∧ b ++ ts.take i ≠ b ++ ts.take j := by
  have hj : j < ts.length := (List.getElem?_eq_some_iff.mp hu).1
  refine ⟨?_, ?_⟩
  · rw [List.prefix_append_right_inj]
    exact List.take_prefix_take_left (by omega)
  · intro heq
    have hlen := congrArg List.length (List.append_cancel_left heq)
    simp only [List.length_take] at hlen
    omega

/-- **Nested units share one buffer.** In a run that starts inside a unit, as long as no closer met
the last open unit: the buffer is what it was and all tokens so far, the depth counts openings and
closings, and every closer stored the buffer of its moment. The closer that meets the last open unit
stores the buffer too, and empties it. So each stored word is a proper prefix of all that are stored
after it. -/
theorem units_share_buffer {call : Call Op} {ts : List Token} {s : State Op} {k : Nat}
    (hd : 0 < s.depth) (h : StaysOpen call ts s k) :
    (stateAfter call ts s k).buffer = s.buffer ++ ts.take k ∧
    (stateAfter call ts s k).depth + closings ts k = s.depth + openings call ts s k ∧
    (∀ j < k, closesAt ts j = true → StoresAt call ts s j (s.buffer ++ ts.take j)) ∧
    (∀ t, ts[k]? = some t → t.isCloser = true → (stateAfter call ts s k).depth = 1 →
      (stateAfter call ts s k).stack ≠ [] →
        GetsThrough call ts s (k + 1) ∧
        StoresAt call ts s k (s.buffer ++ ts.take k) ∧
        if (stateAfter call ts s k).opens t then
          (stateAfter call ts s (k + 1)).depth = 1 ∧ (stateAfter call ts s (k + 1)).buffer = [t]
        else
          (stateAfter call ts s (k + 1)).depth = 0 ∧
            (stateAfter call ts s (k + 1)).buffer = []) ∧
    ∀ i j p q, i < j → j ≤ k → closesAt ts i = true → closesAt ts j = true →
      StoresAt call ts s i p → StoresAt call ts s j q → p <+: q ∧ p ≠ q := by
  have hinv : ∀ j ≤ k, StaysOpen call ts s j ∧ BufferedUpTo call ts s j := by
    intro j hj
    have hopen := h.mono hj
    exact ⟨hopen, hopen.bufferedUpTo hd⟩
  have hstores : ∀ j ≤ k, closesAt ts j = true → GetsThrough call ts s (j + 1) →
      StoresAt call ts s j (s.buffer ++ ts.take j) := by
    intro j hj hc hthrough
    obtain ⟨t, ht, hc⟩ := exists_of_closesAt hc
    exact (hinv j hj).2.storesAt hthrough ht hc
  have hk := (hinv k (Nat.le_refl k)).2
  refine ⟨hk.buffer, hk.depth, ?_, ?_, ?_⟩
  · intro j hj hc
    exact hstores j (by omega) hc (h.mono hj).through
  · intro t ht hc hone hne
    have hthrough := hk.getsThrough_succ h.through ht hne
    exact ⟨hthrough, hk.storesAt hthrough ht hc, hk.last_closer hthrough ht hc hone⟩
  · intro i j p q hij hj hi hc hp hq
    have hthrough : GetsThrough call ts s (j + 1) := by
      obtain ⟨t, ht, -⟩ := exists_of_closesAt hc
      obtain ⟨name, below, hstack, -, -⟩ := hq
      exact (hinv j hj).2.getsThrough_succ (hinv j hj).1.through ht (by simp [hstack])
    rw [hp.unique (hstores i (by omega) hi (h.mono (by omega)).through),
      hq.unique (hstores j hj hc hthrough)]
    obtain ⟨u, hu, -⟩ := exists_of_closesAt hc
    exact take_prefix_take_ne s.buffer hij hu

/-- A machine inside the unit 内, with 外 below it and the declarer 関数. -/
def insideTwoNames : State Empty :=
  ⟨∅, [.text "内", .text "外"], [], 1, (∅ : Std.ExtTreeSet Value).insert (.text "関数")⟩

/-- The tokens of `1 関数 2 です 3 です`. -/
def twoUnits : List Token :=
  [⟨.number, .int 1, "1"⟩, .identifier "関数", ⟨.number, .int 2, "2"⟩, .identifier "です",
   ⟨.number, .int 3, "3"⟩, .identifier "です"]

/-- The inner unit 内 holds the first three tokens and the outer one 外 the first five, the inner
closer among them. -/
theorem units_share_buffer_twice :
    StaysOpen (fun _ => pure ()) twoUnits insideTwoNames 5 ∧
      StoresAt (fun _ => pure ()) twoUnits insideTwoNames 3 (twoUnits.take 3) ∧
      StoresAt (fun _ => pure ()) twoUnits insideTwoNames 5 (twoUnits.take 5) := by
  have hopen : StaysOpen (fun _ => pure ()) twoUnits insideTwoNames 5 := by
    refine ⟨rfl, ?_⟩
    intro j hj hc
    have hj3 : j = 3 := by
      revert j
      decide
    rw [hj3]
    exact show 2 ≠ 1 by decide
  obtain ⟨-, -, hinner, houter, -⟩ := units_share_buffer (by decide) hopen
  refine ⟨hopen, hinner 3 (by decide) rfl, ?_⟩
  exact (houter (.identifier "です") rfl rfl rfl (List.cons_ne_nil _ _)).2.1

end WordMachine.Act
