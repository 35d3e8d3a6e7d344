import WordMachine.Proofs.HostRoom

/-!
# Reachable states

`Operation` lists what a surrounding program can do with a machine, and `Settled` holds of every state that some
sequence of operations leads to from a new machine, none of them cut short in a definition. An operation that
fails leads to the state its failure arose in. Each operation may come with a host and a limit on nested calls of
its own.
-/

namespace WordMachine

variable {Op : Type}

/-- What a surrounding program can do with a machine. -/
inductive Operation (Op : Type) where
  | push (v : Value)
  | pushAll (vs : List Value)
  | pop
  | peek
  | define (name : Value) (tokens : List Token)
  /-- Gives a name to an operation of the surrounding program. -/
  | defineNative (name : Value) (op : Op)
  /-- Gives a name to a function of the stack. -/
  | addMethod (name : Value) (m : StackMethod)
  | addDeclarer (name : Value)
  | install (encoding : Option String)
  | run (text : String)
  | eval (line : String)
  | interpret (tokens : List Token)
  | runToken (t : Token)
  | execute (t : Token)

/-- What an operation does; a value that it gives back is dropped. -/
def Operation.act (w : World Op) (limit : Nat) : Operation Op → Act Op Unit
  | push v => Act.push v
  | pushAll vs => Act.pushAll vs
  | pop => do let _ ← Act.pop
  | peek => do let _ ← Act.peek
  | define name tokens => Act.define name tokens
  | defineNative name op =>
    Act.modify fun s => { s with dictionary := s.dictionary.insert name (.custom op) }
  | addMethod name m =>
    Act.modify fun s => { s with dictionary := s.dictionary.insert name (.method m) }
  | addDeclarer name => Act.modify fun s => { s with declarers := s.declarers.insert name }
  | install encoding => Act.modify (State.install encoding)
  | run text => w.run limit text
  | eval line => do let _ ← w.eval limit line
  | interpret tokens => Act.interpret (w.execute limit) tokens
  | runToken t => Act.runToken (w.execute limit) t
  | execute t => w.execute limit t

/-- What an operation does on a host. -/
def Operation.actOn (w : World Op) (host : Host Op) (limit : Nat) : Operation Op → Act Op Unit
  | run text => w.runOn host limit text
  | eval line => do let _ ← w.evalOn host limit line
  | interpret tokens => Act.interpret (w.executeOn host limit []) tokens
  | runToken t => Act.runToken (w.executeOn host limit []) t
  | execute t => w.executeOn host limit [] t
  | op => op.act w limit

namespace Act

variable {α : Type}

theorem state_drop (m : Act Op α) (s : State Op) :
    ((do let _ ← m : Act Op Unit) s).state = (m s).state := by
  cases hr : (m s).result with
  | ok a => rw [bind_apply_of_ok hr, pure_apply]
  | error e => rw [bind_apply_of_error hr]

theorem state_peek (s : State Op) : (peek s).state = s := by
  cases hs : s.stack with
  | nil => rw [peek_apply_of_nil hs]
  | cons v vs => rw [peek_apply_of_cons hs]

end Act

/-- The states that operations lead to from a new machine, each on a host that always has room to note a
definition or in a way that does not end for want of room. -/
inductive Settled (w : World Op) : State Op → Prop where
  | new : Settled w .new
  | step {s : State Op} (h : Settled w s) (host : Host Op) (limit : Nat) (op : Operation Op)
    (hroom : host.RoomToDefine ∨ ¬ (op.actOn w host limit s).OutOfRoom) :
    Settled w (op.actOn w host limit s).state

/-- What holds of a new machine and is kept by every such operation holds of every settled state. -/
theorem Settled.invariant {w : World Op} {P : State Op → Prop} (hnew : P .new)
    (hstep : ∀ (host : Host Op) (limit : Nat) (op : Operation Op) (s : State Op),
      host.RoomToDefine ∨ ¬ (op.actOn w host limit s).OutOfRoom → P s →
        P (op.actOn w host limit s).state)
    {s : State Op} (h : Settled w s) : P s := by
  induction h with
  | new => exact hnew
  | step _ host limit op hroom ih => exact hstep host limit op _ hroom ih

end WordMachine
