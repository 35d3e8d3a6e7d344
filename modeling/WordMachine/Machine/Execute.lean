import WordMachine.Machine.Run
import WordMachine.Source

/-!
# Executing words

`execute` looks a name up and does what its definition says. Words call each other, so it takes a
limit on how many calls may be nested; a call beyond the limit fails in the name it was made for.

The limit counts nested calls in place of the frames of a host's own stack. A host has no such count: each call
takes a few frames of it, as do other things that are not counted here (beginning to run a text or to answer a
line, reading the table of an encoding for the first time), and it may run short inside a word as well as where
one is called. `World.executeOn` is the machine on such a host.
-/

namespace WordMachine

/-- What surrounds a machine: the files it can load, and the operations of the surrounding
program. -/
structure World (Op : Type) where
  files : Files
  custom : Op → Act Op Unit

/-- A world of files alone. -/
def World.ofFiles (files : Files) : World Empty :=
  ⟨files, Empty.elim⟩

namespace Act

variable {Op : Type}

/-! ## Functions of the stack -/

/-- Takes the values that a function wants off the stack, the top first, and applies it. -/
def applyTop : (n : Nat) → StackFunction n → Act Op Reply
  | 0, reply => ofExcept reply
  | n + 1, f => do applyTop n (f (← pop))

/-- Pushes what a function gave back. -/
def answer : Reply → Act Op Unit
  | .nothing => pure ()
  | .each values => pushAll values
  | .one value => push value

/-- Executes a function of the stack. -/
def method (m : StackMethod) : Act Op Unit := do
  answer (← applyTop m.arity m.function)

/-- Fails because words call each other too deep, in the name of the word that `t` names. -/
def exceed (t : Token) : Act Op Unit := do
  raise (.callDepthExceeded (← orFault t.name.written))

end Act

namespace Builtin

/-- The text of the lower value followed by that of the top one. -/
def joined (top lower : Value) : Except Fault String := do
  let a ← lower.written
  let b ← top.written
  return a ++ b

/-- The two top values as one text. -/
def joinMethod : StackMethod :=
  ⟨2, fun (top lower : Value) =>
    match joined top lower with
    | .ok t => .ok (.one (.text t))
    | .error f => .error (.fault f)⟩

/-- Whether the top value is zero. -/
def isZeroMethod : StackMethod :=
  ⟨1, fun (top : Value) => do
    let n ← top.integer
    return .one (.int (if n = 0 then 1 else 0))⟩

/-- The sum of the two top values. -/
def addMethod : StackMethod :=
  ⟨2, fun (top lower : Value) => do
    let a ← lower.integer
    let b ← top.integer
    return .one (.int (a + b))⟩

variable {Op : Type}

/-- The bottom of the stack. -/
def bottom : Act Op Value := do
  match (← Act.get).stack.getLast? with
  | none => Act.raise .emptyStack
  | some v => pure v

/-- Takes a text off the stack. -/
def popString : Act Op String := do
  Act.ofExcept (← Act.pop).string

/-- Executes a built-in word. -/
def execute (files : Files) (call : Act.Call Op) : Builtin → Act Op Unit
  | write => do Act.write (← Act.orFault (← Act.pop).written)
  | newline => Act.write "\n"
  | perform => do call (Token.identifier (← popString))
  | depth => do Act.push (.int (← Act.get).stack.length)
  | copyBottom => do Act.push (← bottom)
  | negateBottom => do
    let n ← Act.ofExcept (← bottom).integer
    Act.modify fun s => { s with stack := s.stack.dropLast ++ [.int (-n)] }
  | load encoding => do
    let path ← popString
    Act.note (.loading path)
    Act.runText call (← Act.ofExcept (Source.read files encoding path))
  | join => Act.method joinMethod
  | isZero => Act.method isZeroMethod
  | add => Act.method addMethod

end Builtin

namespace World

variable {Op : Type}

/-- Does what a definition says. -/
def perform (w : World Op) (call : Act.Call Op) : Definition Op → Act Op Unit
  | .builtin b => b.execute w.files call
  | .method m => Act.method m
  | .custom op => w.custom op
  | .procedure tokens => Act.interpret call tokens

/-- Executes the word that a token names, with at most `limit` calls nested. -/
def execute (w : World Op) (limit : Nat) (t : Token) : Act Op Unit := do
  match (← Act.get).dictionary[t.name]? with
  | none => Act.raise (.unknownName (← Act.orFault t.name.written))
  | some d =>
    match limit with
    | 0 => Act.exceed t
    | limit + 1 => w.perform (w.execute limit) d

/-- Runs a text. -/
def run (w : World Op) (limit : Nat) (text : String) : Act Op Unit :=
  Act.runText (w.execute limit) text

/-- How deep calls may be nested when nothing else is said. -/
def callLimit : Nat := 300

end World

end WordMachine
