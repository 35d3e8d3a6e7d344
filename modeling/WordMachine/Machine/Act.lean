import WordMachine.Machine.State

/-!
# Acts

An act is a step of a machine: from a state it comes to a result or a failure, and in either case to
a new state, having written some text and noted some events. A failure keeps the state it arose in
and what was written before it.

Acts are a lawful monad. Output and journal of two acts in a row are those of the first followed by
those of the second.
-/

namespace WordMachine

/-- An event that the machine notes for whoever watches it. -/
inductive Note where
  /-- A unit was opened by the token of this name. -/
  | compiling (after : Value)
  /-- A name was made a declarer. -/
  | declarer (name : Value)
  /-- A word is being defined by so many tokens. -/
  | defining (name : Value) (tokens : Nat)
  /-- The source at a path is being loaded by a program. -/
  | loading (path : String)
  /-- A source of the command line is being run. -/
  | running (source : String)
deriving DecidableEq, Repr

/-- Where an act leads. -/
structure Outcome (Op α : Type) where
  result : Except Failure α
  state : State Op
  output : String
  journal : List Note

/-- A step of a machine. -/
def Act (Op α : Type) : Type :=
  State Op → Outcome Op α

namespace Act

variable {Op α β γ : Type}

/-- Does nothing. -/
protected def pure (a : α) : Act Op α := fun s =>
  ⟨.ok a, s, "", []⟩

/-- Fails. -/
def fail (e : Failure) : Act Op α := fun s =>
  ⟨.error e, s, "", []⟩

/-- One act after the other, unless the first fails. -/
protected def bind (m : Act Op α) (f : α → Act Op β) : Act Op β := fun s =>
  let o := m s
  match o.result with
  | .ok a =>
    let p := f a o.state
    ⟨p.result, p.state, o.output ++ p.output, o.journal ++ p.journal⟩
  | .error e => ⟨.error e, o.state, o.output, o.journal⟩

instance : Monad (Act Op) where
  pure := Act.pure
  bind := Act.bind

theorem pure_apply (a : α) (s : State Op) : (pure a : Act Op α) s = ⟨.ok a, s, "", []⟩ := rfl

theorem fail_apply (e : Failure) (s : State Op) :
    (fail e : Act Op α) s = ⟨.error e, s, "", []⟩ := rfl

theorem bind_apply_of_ok {m : Act Op α} {f : α → Act Op β} {s : State Op} {a : α}
    (h : (m s).result = .ok a) :
    (m >>= f) s =
      ⟨(f a (m s).state).result, (f a (m s).state).state,
        (m s).output ++ (f a (m s).state).output,
        (m s).journal ++ (f a (m s).state).journal⟩ := by
  show Act.bind m f s = _
  simp only [Act.bind, h]

theorem bind_apply_of_error {m : Act Op α} {f : α → Act Op β} {s : State Op} {e : Failure}
    (h : (m s).result = .error e) :
    (m >>= f) s = ⟨.error e, (m s).state, (m s).output, (m s).journal⟩ := by
  show Act.bind m f s = _
  simp only [Act.bind, h]

protected theorem bind_pure (m : Act Op α) : m >>= pure = m := by
  funext s
  cases h : (m s).result with
  | ok a => rw [bind_apply_of_ok h, pure_apply, ← h]; simp
  | error e => rw [bind_apply_of_error h, ← h]

protected theorem pure_bind (a : α) (f : α → Act Op β) : pure a >>= f = f a := by
  funext s
  have h : ((pure a : Act Op α) s).result = .ok a := rfl
  rw [bind_apply_of_ok h, pure_apply]
  simp

protected theorem bind_assoc (m : Act Op α) (f : α → Act Op β) (g : β → Act Op γ) :
    m >>= f >>= g = m >>= fun a => f a >>= g := by
  funext s
  cases h : (m s).result with
  | error e =>
    have hm := bind_apply_of_error (f := f) h
    have hr : ((m >>= f) s).result = .error e := by rw [hm]
    rw [bind_apply_of_error h, bind_apply_of_error hr, hm]
  | ok a =>
    have hm := bind_apply_of_ok (f := f) h
    rw [bind_apply_of_ok h]
    cases h' : (f a (m s).state).result with
    | error e =>
      have hr : ((m >>= f) s).result = .error e := by rw [hm, h']
      rw [bind_apply_of_error hr, bind_apply_of_error h', hm]
    | ok b =>
      have hr : ((m >>= f) s).result = .ok b := by rw [hm, h']
      rw [bind_apply_of_ok hr, bind_apply_of_ok h', hm]
      simp [String.append_assoc]

instance : LawfulMonad (Act Op) :=
  LawfulMonad.mk' (Act Op) (fun m => Act.bind_pure m) Act.pure_bind Act.bind_assoc

/-! ## Elementary acts -/

/-- The state. -/
def get : Act Op (State Op) := fun s =>
  ⟨.ok s, s, "", []⟩

/-- Changes the state. -/
def modify (f : State Op → State Op) : Act Op Unit := fun s =>
  ⟨.ok (), f s, "", []⟩

/-- Writes a text. -/
def write (text : String) : Act Op Unit := fun s =>
  ⟨.ok (), s, text, []⟩

/-- Notes an event. -/
def note (n : Note) : Act Op Unit := fun s =>
  ⟨.ok (), s, "", [n]⟩

/-- Fails with an error of the machine. -/
def raise (e : MachineError) : Act Op α :=
  fail (.error e)

theorem get_apply (s : State Op) : get s = ⟨.ok s, s, "", []⟩ := rfl

theorem modify_apply (f : State Op → State Op) (s : State Op) :
    modify f s = ⟨.ok (), f s, "", []⟩ := rfl

theorem write_apply (text : String) (s : State Op) : write text s = ⟨.ok (), s, text, []⟩ := rfl

theorem note_apply (n : Note) (s : State Op) : note n s = ⟨.ok (), s, "", [n]⟩ := rfl

theorem raise_apply (e : MachineError) (s : State Op) :
    (raise e : Act Op α) s = ⟨.error (.error e), s, "", []⟩ := rfl

/-- What follows the state is run from it. -/
theorem get_bind_apply (f : State Op → Act Op α) (s : State Op) : (get >>= f) s = f s s := by
  have h : (get s).result = .ok s := rfl
  rw [bind_apply_of_ok h, get_apply]
  simp

/-- What follows a change is run from the changed state. -/
theorem modify_bind_apply (g : State Op → State Op) (f : Unit → Act Op α) (s : State Op) :
    (modify g >>= f) s = f () (g s) := by
  have h : (modify g s).result = .ok () := rfl
  rw [bind_apply_of_ok h, modify_apply]
  simp

/-- A result that may be a failure. -/
def ofExcept : Except Failure α → Act Op α
  | .ok a => pure a
  | .error e => fail e

/-- A result that may be a fault. -/
def orFault : Except Fault α → Act Op α
  | .ok a => pure a
  | .error f => fail (.fault f)

/-! ## The stack -/

/-- Puts a value on the stack. -/
def push (v : Value) : Act Op Unit :=
  modify fun s => { s with stack := v :: s.stack }

/-- Puts values on the stack one after the other, so that the last one is on top. -/
def pushAll (vs : List Value) : Act Op Unit :=
  modify fun s => { s with stack := vs.reverse ++ s.stack }

/-- The top of the stack. -/
def peek : Act Op Value := do
  match (← get).stack with
  | [] => raise .emptyStack
  | v :: _ => pure v

/-- Takes the top off the stack. -/
def pop : Act Op Value := do
  match (← get).stack with
  | [] => raise .emptyStack
  | v :: vs => modify (fun s => { s with stack := vs }); pure v

theorem push_apply (v : Value) (s : State Op) :
    push v s = ⟨.ok (), { s with stack := v :: s.stack }, "", []⟩ := rfl

theorem peek_apply_of_nil {s : State Op} (h : s.stack = []) :
    peek s = ⟨.error (.error .emptyStack), s, "", []⟩ := by
  rw [peek, get_bind_apply, h]
  rfl

theorem peek_apply_of_cons {s : State Op} {v : Value} {vs : List Value} (h : s.stack = v :: vs) :
    peek s = ⟨.ok v, s, "", []⟩ := by
  rw [peek, get_bind_apply, h]
  rfl

theorem pop_apply_of_nil {s : State Op} (h : s.stack = []) :
    pop s = ⟨.error (.error .emptyStack), s, "", []⟩ := by
  rw [pop, get_bind_apply, h]
  rfl

theorem pop_apply_of_cons {s : State Op} {v : Value} {vs : List Value} (h : s.stack = v :: vs) :
    pop s = ⟨.ok v, { s with stack := vs }, "", []⟩ := by
  rw [pop, get_bind_apply, h]
  exact modify_bind_apply _ _ s

end Act

end WordMachine
