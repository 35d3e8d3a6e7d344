import WordMachine.Machine.Execute
import WordMachine.Proofs.Outcome

/-!
# Staying within the call depth

The limit on nested calls shows in a run only where a call is made beyond it. `World.executeBeyond`
leaves open what such a call does; `World.execute` is the case where it fails. A run stays within the
limit if that does not matter (`World.StaysWithin`). The failure alone would not tell: the message of
a call beyond the limit shows a name, and a name that cannot be shown is a fault of its own.

`Act.AgreesUnless bad m m'` says that `m'` does what `m` does from every state, unless `m` ends in a bad
failure. It is kept by doing one act after the other, hence by everything that the machine does with
the words it calls. Now let all calls beyond the limit fail with one mark: a run that does not end in
the mark never made one, and it is the same with any larger limit (`World.execute_agreesUnless`).
-/

namespace WordMachine

variable {Op α β : Type}

namespace Act

/-- `m'` does what `m` does, unless `m` ends in a bad failure. -/
def AgreesUnless (bad : Failure → Prop) (m m' : Act Op α) : Prop :=
  ∀ s, (∀ e, (m s).result = .error e → ¬ bad e) → m' s = m s

namespace AgreesUnless

variable {bad : Failure → Prop}

theorem refl (m : Act Op α) : AgreesUnless bad m m := fun _ _ => rfl

theorem of_bad {m m' : Act Op α} (h : ∀ s, ∃ e, (m s).result = .error e ∧ bad e) :
    AgreesUnless bad m m' := by
  intro s hs
  obtain ⟨e, he, hbad⟩ := h s
  exact absurd hbad (hs e he)

theorem bind {m m' : Act Op α} {f f' : α → Act Op β} (hm : AgreesUnless bad m m')
    (hf : ∀ a, AgreesUnless bad (f a) (f' a)) : AgreesUnless bad (m >>= f) (m' >>= f') := by
  intro s hs
  cases hr : (m s).result with
  | ok a =>
    have heq : m' s = m s := hm s fun e he => by rw [hr] at he; cases he
    have hr' : (m' s).result = .ok a := by rw [heq, hr]
    have hlater := hf a (m s).state fun e he => hs e (by rw [bind_apply_of_ok hr, he])
    rw [bind_apply_of_ok hr, bind_apply_of_ok hr', heq, hlater]
  | error e =>
    have heq : m' s = m s := by
      refine hm s fun e' he => hs e' ?_
      rw [hr] at he
      cases he
      rw [bind_apply_of_error hr]
    have hr' : (m' s).result = .error e := by rw [heq, hr]
    rw [bind_apply_of_error hr, bind_apply_of_error hr', heq]

theorem bind_left (m : Act Op α) {f f' : α → Act Op β} (hf : ∀ a, AgreesUnless bad (f a) (f' a)) :
    AgreesUnless bad (m >>= f) (m >>= f') :=
  bind (refl m) hf

end AgreesUnless

/-! ## Running with other calls -/

section Running

variable {bad : Failure → Prop} {call call' : Call Op}
  (h : ∀ t, AgreesUnless bad (call t) (call' t))
include h

theorem obey_agreesUnless (t : Token) : AgreesUnless bad (obey call t) (obey call' t) := by
  unfold obey
  split
  · exact .refl _
  · split
    · exact .refl _
    · refine .bind_left _ fun s => ?_
      split
      · exact .refl _
      · exact h t

theorem runToken_agreesUnless (t : Token) :
    AgreesUnless bad (runToken call t) (runToken call' t) := by
  unfold runToken
  refine .bind_left _ fun s => ?_
  split
  · exact .refl _
  · exact obey_agreesUnless h t

theorem interpret_agreesUnless (ts : List Token) :
    AgreesUnless bad (interpret call ts) (interpret call' ts) := by
  induction ts with
  | nil => exact .refl _
  | cons t ts ih => exact .bind (runToken_agreesUnless h t) fun _ => ih

theorem runWords_agreesUnless (ws : List Word) :
    AgreesUnless bad (runWords call ws) (runWords call' ws) := by
  induction ws with
  | nil => exact .refl _
  | cons w ws ih => exact .bind_left _ fun t => .bind (runToken_agreesUnless h t) fun _ => ih

end Running

/-- A run that depends on the calls it makes only through what they do. -/
def RespectsCalls (run : Call Op → Act Op α) : Prop :=
  ∀ (bad : Failure → Prop) (call call' : Call Op), (∀ t, AgreesUnless bad (call t) (call' t)) →
    AgreesUnless bad (run call) (run call')

theorem respectsCalls_interpret (ts : List Token) :
    RespectsCalls fun call : Call Op => interpret call ts :=
  fun _ _ _ h => interpret_agreesUnless h ts

theorem respectsCalls_runText (text : String) :
    RespectsCalls fun call : Call Op => runText call text :=
  fun _ _ _ h => runWords_agreesUnless h (Word.scan text)

end Act

/-- Whether a failure may be that of words that call each other too deep: it says so, or the name that it would
show is an integer too long to be written. -/
def Failure.MayExceed : Failure → Prop
  | .error (.callDepthExceeded _) => True
  | .fault .integerTooLong => True
  | _ => False

theorem Value.written_eq_error {v : Value} {f : Fault} (h : v.written = .error f) :
    f = .integerTooLong := by
  cases v with
  | text t => cases h
  | int n =>
    rw [Value.written, Numeral.write] at h
    split at h
    · cases h
      rfl
    · cases h

theorem Act.exceed_apply (t : Token) (s : State Op) :
    ∃ e, exceed t s = ⟨.error e, s, "", []⟩ ∧ e.MayExceed := by
  unfold exceed
  cases hw : t.name.written with
  | ok name => exact ⟨_, rfl, trivial⟩
  | error f =>
    rw [Value.written_eq_error hw]
    exact ⟨_, rfl, trivial⟩

theorem Act.exists_mayExceed (t : Token) (s : State Op) :
    ∃ e, (exceed t s).result = .error e ∧ e.MayExceed := by
  obtain ⟨e, he, hexceeds⟩ := exceed_apply t s
  exact ⟨e, by rw [he], hexceeds⟩

theorem Builtin.execute_agreesUnless (files : Files) {bad : Failure → Prop}
    {call call' : Act.Call Op} (h : ∀ t, Act.AgreesUnless bad (call t) (call' t)) (b : Builtin) :
    Act.AgreesUnless bad (b.execute files call) (b.execute files call') := by
  cases b with
  | perform => exact .bind_left _ fun name => h _
  | load encoding =>
    exact .bind_left _ fun path => .bind_left _ fun _ => .bind_left _ fun text =>
      Act.runWords_agreesUnless h _
  | _ => exact .refl _

namespace World

theorem perform_agreesUnless (w : World Op) {bad : Failure → Prop} {call call' : Act.Call Op}
    (h : ∀ t, Act.AgreesUnless bad (call t) (call' t)) (d : Definition Op) :
    Act.AgreesUnless bad (w.perform call d) (w.perform call' d) := by
  cases d with
  | builtin b => exact b.execute_agreesUnless w.files h
  | method m => exact .refl _
  | custom op => exact .refl _
  | procedure tokens => exact Act.interpret_agreesUnless h tokens

/-! ## Calls beyond the limit -/

/-- Executes the word that a token names, with at most `limit` calls nested; a call beyond them is
made by `beyond`. -/
def executeBeyond (w : World Op) (beyond : Act.Call Op) (limit : Nat) (t : Token) : Act Op Unit := do
  match (← Act.get).dictionary[t.name]? with
  | none => Act.raise (.unknownName (← Act.orFault t.name.written))
  | some d =>
    match limit with
    | 0 => beyond t
    | limit + 1 => w.perform (w.executeBeyond beyond limit) d

section Lookup

variable {w : World Op} {beyond : Act.Call Op} {t : Token} {s : State Op} {d : Definition Op}

theorem execute_apply_of_none (h : s.dictionary[t.name]? = none) (limit : Nat) :
    w.execute limit t s =
      (do Act.raise (.unknownName (← Act.orFault t.name.written)) : Act Op Unit) s := by
  rw [execute.eq_def, Act.get_bind_apply, h]

theorem execute_zero_apply (h : s.dictionary[t.name]? = some d) :
    w.execute 0 t s = Act.exceed t s := by
  rw [execute, Act.get_bind_apply, h]

theorem execute_succ_apply (h : s.dictionary[t.name]? = some d) (limit : Nat) :
    w.execute (limit + 1) t s = w.perform (w.execute limit) d s := by
  rw [execute, Act.get_bind_apply, h]

theorem executeBeyond_apply_of_none (h : s.dictionary[t.name]? = none) (limit : Nat) :
    w.executeBeyond beyond limit t s =
      (do Act.raise (.unknownName (← Act.orFault t.name.written)) : Act Op Unit) s := by
  rw [executeBeyond.eq_def, Act.get_bind_apply, h]

theorem executeBeyond_zero_apply (h : s.dictionary[t.name]? = some d) :
    w.executeBeyond beyond 0 t s = beyond t s := by
  rw [executeBeyond, Act.get_bind_apply, h]

theorem executeBeyond_succ_apply (h : s.dictionary[t.name]? = some d) (limit : Nat) :
    w.executeBeyond beyond (limit + 1) t s = w.perform (w.executeBeyond beyond limit) d s := by
  rw [executeBeyond, Act.get_bind_apply, h]

end Lookup

theorem execute_eq_executeBeyond (w : World Op) (limit : Nat) :
    w.execute limit = w.executeBeyond Act.exceed limit := by
  induction limit with
  | zero =>
    funext t s
    cases hd : s.dictionary[t.name]? with
    | none => rw [execute_apply_of_none hd, executeBeyond_apply_of_none hd]
    | some d => rw [execute_zero_apply hd, executeBeyond_zero_apply hd]
  | succ limit ih =>
    funext t s
    cases hd : s.dictionary[t.name]? with
    | none => rw [execute_apply_of_none hd, executeBeyond_apply_of_none hd]
    | some d => rw [execute_succ_apply hd, executeBeyond_succ_apply hd, ih]

/-- Room for `k` calls more is a call beyond the limit that has room for `k`. -/
theorem execute_add_eq_executeBeyond (w : World Op) (limit k : Nat) :
    w.execute (limit + k) = w.executeBeyond (w.execute k) limit := by
  induction limit with
  | zero =>
    funext t s
    rw [Nat.zero_add]
    cases hd : s.dictionary[t.name]? with
    | none => rw [execute_apply_of_none hd, executeBeyond_apply_of_none hd]
    | some d => rw [executeBeyond_zero_apply hd]
  | succ limit ih =>
    funext t s
    rw [Nat.add_right_comm]
    cases hd : s.dictionary[t.name]? with
    | none => rw [execute_apply_of_none hd, executeBeyond_apply_of_none hd]
    | some d => rw [execute_succ_apply hd, executeBeyond_succ_apply hd, ih]

/-- A run that does not end as badly as a call beyond the limit never made one. -/
theorem executeBeyond_agreesUnless (w : World Op) {bad : Failure → Prop} {beyond : Act.Call Op}
    (h : ∀ t s, ∃ e, (beyond t s).result = .error e ∧ bad e) (beyond' : Act.Call Op) (limit : Nat)
    (t : Token) :
    Act.AgreesUnless bad (w.executeBeyond beyond limit t) (w.executeBeyond beyond' limit t) := by
  induction limit generalizing t with
  | zero =>
    rw [executeBeyond, executeBeyond]
    refine .bind_left _ fun s => ?_
    split
    · exact .refl _
    · exact .of_bad (h t)
  | succ limit ih =>
    rw [executeBeyond, executeBeyond]
    refine .bind_left _ fun s => ?_
    split
    · exact .refl _
    · exact w.perform_agreesUnless ih _

/-! ## Marked calls -/

/-- Executes a word; a call beyond the limit fails with the mark. -/
def executeMarked (w : World Op) (mark : Failure) (limit : Nat) : Act.Call Op :=
  w.executeBeyond (fun _ => Act.fail mark) limit

/-- A run that does not end in the mark is the same without it, and with more room. -/
theorem execute_agreesUnless (w : World Op) (mark : Failure) (limit k : Nat) (t : Token) :
    Act.AgreesUnless (· = mark) (w.executeMarked mark limit t) (w.execute (limit + k) t) := by
  have hmark : ∀ (t : Token) (s : State Op),
      ∃ e, ((Act.fail mark : Act Op Unit) s).result = .error e ∧ e = mark :=
    fun _ _ => ⟨mark, rfl, rfl⟩
  rw [execute_add_eq_executeBeyond]
  exact w.executeBeyond_agreesUnless hmark (w.execute k) limit t

/-! ## Runs within the limit -/

/-- A run that makes its calls by `call` stays within the limit: what a call beyond it does is of no
matter. -/
def StaysWithin (w : World Op) (limit : Nat) (run : Act.Call Op → Act Op α) (s : State Op) : Prop :=
  ∀ beyond, run (w.executeBeyond beyond limit) s = run (w.execute limit) s

/-- There is a mark that the run would not end in if all calls beyond the limit failed with it. -/
theorem StaysWithin.exists_mark {w : World Op} {limit : Nat} {run : Act.Call Op → Act Op α}
    {s : State Op} (h : w.StaysWithin limit run s) :
    ∃ mark, ∀ e, (run (w.executeMarked mark limit) s).result = .error e → ¬ e = mark := by
  cases hr : (run (w.execute limit) s).result with
  | ok a =>
    refine ⟨.error .emptyStack, fun e he => ?_⟩
    rw [executeMarked, h, hr] at he
    cases he
  | error f =>
    have hother : ∃ mark, f ≠ mark := by
      by_cases hf : f = .error .emptyStack
      · exact ⟨.fault .integerTooLong, by rw [hf]; decide⟩
      · exact ⟨_, hf⟩
    obtain ⟨mark, hmark⟩ := hother
    refine ⟨mark, fun e he => ?_⟩
    rw [executeMarked, h, hr] at he
    cases he
    exact hmark

/-- A run that ends normally, or in a failure that has nothing to do with the limit, has stayed
within it. -/
theorem staysWithin_of_not_mayExceed {w : World Op} {limit : Nat} {run : Act.Call Op → Act Op α}
    {s : State Op} (hrun : Act.RespectsCalls run)
    (h : ∀ e, (run (w.execute limit) s).result = .error e → ¬ e.MayExceed) :
    w.StaysWithin limit run s := by
  intro beyond
  have hcalls := w.executeBeyond_agreesUnless Act.exists_mayExceed beyond limit
  rw [execute_eq_executeBeyond] at h ⊢
  exact hrun _ _ _ hcalls s h

theorem StaysWithin.of_isOk {w : World Op} {limit : Nat} {run : Act.Call Op → Act Op α}
    {s : State Op} (hrun : Act.RespectsCalls run)
    (h : (run (w.execute limit) s).result.isOk = true) : w.StaysWithin limit run s := by
  refine staysWithin_of_not_mayExceed hrun fun e he => ?_
  rw [he] at h
  cases h

theorem staysWithin_of_isOk {w : World Op} {limit : Nat} {ts : List Token} {s : State Op}
    (h : (Act.interpret (w.execute limit) ts s).result.isOk = true) :
    w.StaysWithin limit (fun call => Act.interpret call ts) s :=
  .of_isOk (Act.respectsCalls_interpret ts) h

end World

end WordMachine
