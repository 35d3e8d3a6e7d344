import WordMachine.Machine.Execute
import WordMachine.Text.Lines

/-!
# The console

A console feeds a machine one line at a time and answers each line: ok, or compiled if a unit is
still open, or the message of an error. After an error the machine starts over with an empty stack
and no open unit, but keeps its words. A fault is not answered.

`session` is a whole session: a greeting, and then for each line what it wrote and the answer, up to
the line that takes leave or the end of the input. Its input is taken to be a text stream on which all three
line ends end a line (`Text.lines`). A host may open a stream of its own so that only line feeds do; there a
carriage return would be a character of its line.
-/

namespace WordMachine

/-- The answer to a line. -/
inductive Response where
  | ok
  | compiled
  | trouble (message : String)
deriving DecidableEq, Repr

/-- The text of an answer. -/
def Response.text : Response → String
  | ok => " ok"
  | compiled => " compiled"
  | trouble message => " ? " ++ message

/-- The answer to a line that ran without a failure. -/
def World.response {Op : Type} (s : State Op) : Response :=
  match s.mode with
  | .executing => .ok
  | .compiling => .compiled

/-- Does what a line says and answers it. -/
def Act.answered {Op : Type} (line : Act Op Unit) : Act Op Response := fun s =>
  let o := line s
  match o.result with
  | .ok () => { o with result := .ok (World.response o.state) }
  | .error (.error e) => { o with result := .ok (.trouble e.message), state := o.state.reset }
  | .error (.fault f) => { o with result := .error (.fault f) }

/-- Runs a line and answers it. -/
def World.eval {Op : Type} (w : World Op) (limit : Nat) (line : String) : Act Op Response :=
  (w.run limit line).answered

namespace Console

variable {Op : Type}

/-- The first line of a session. -/
def greeting : String :=
  "Type \"さようなら\" or input an end of file (Ctrl+D) to quit."

/-- The line that ends a session. -/
def farewell : String := "さようなら"

/-- Whether a line takes leave; white space around it does not matter. -/
def isFarewell (line : String) : Bool :=
  Text.strip line.toList == farewell.toList

/-- The part of a session that is answered. -/
def upToFarewell (lines : List String) : List String :=
  lines.takeWhile (!isFarewell ·)

/-- Runs a line and writes the answer behind what it wrote. -/
def converse (w : World Op) (limit : Nat) (line : String) : Act Op Unit := do
  let r ← w.eval limit line
  Act.write (r.text ++ "\n")

/-- Answers lines in order. -/
def converseAll (w : World Op) (limit : Nat) : List String → Act Op Unit
  | [] => pure ()
  | l :: ls => do
    converse w limit l
    converseAll w limit ls

/-- A session with the given input on a machine with the built-in words. -/
def session (files : Files) (limit : Nat) (input : String) : Outcome Empty Unit :=
  let conversation : Act Empty Unit := do
    Act.write (greeting ++ "\n")
    converseAll (World.ofFiles files) limit (upToFarewell (Text.lines input))
  conversation (State.new.install (some "utf-8"))

end Console

end WordMachine
