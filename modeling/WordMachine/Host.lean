import WordMachine.Console

/-!
# Machines on a host

A word that is being executed takes room of the host that the machine runs on, and the calls it makes take
more. `World.execute` counts nested calls in place of room, so it fails only where a call is made. A host runs
short at any spot inside a word: where the next token is to be run, or where an event is to be noted. The acts
of this module ask for room at each of these spots, and are otherwise those that `World.execute` is made of.

A run that finds no room fails in the name of the innermost word and leaves the state as it is at that spot. At
most spots this is the state that the token found. A closer asks for room in the middle of its work, though:
by then it has taken the name off the stack and closed the unit, and it has neither stored the word nor emptied
the buffer.

Outside all words there is room. Spots inside the built-in words are left out but for those of loading: all that
could be seen there is how many values such a word has taken off the stack.
-/

namespace WordMachine

/-- A spot inside a word where a run needs room for what comes next. -/
inductive Spot where
  /-- A token is to be run. -/
  | token (t : Token)
  /-- An event is to be noted. -/
  | note (n : Note)
deriving DecidableEq, Repr

/-- A host: whether there is room at a spot inside words of the given definitions, the innermost first. -/
def Host (Op : Type) : Type :=
  List (Definition Op) → Spot → Bool

/-- A host that has room for everything but one thing: a definition inside the innermost word that a limit on
nested calls allows. -/
def Host.shallow {Op : Type} (limit : Nat) : Host Op
  | words, .note (.defining _ _) => words.length < limit
  | _, _ => true

/-- The room inside a word. -/
structure Room where
  /-- The word, as the token names it. -/
  word : Token
  /-- Whether there is room at a spot. -/
  has : Spot → Bool

namespace Room

variable {Op : Type}

/-- Goes on if there is room. -/
def take (room : Room) (spot : Spot) : Act Op Unit :=
  if room.has spot then pure () else Act.exceed room.word

/-- Notes an event. -/
def note (room : Room) (n : Note) : Act Op Unit := do
  room.take (.note n)
  Act.note n

/-! ## Compiling -/

/-- Defines a word by tokens. -/
def define (room : Room) (name : Value) (tokens : List Token) : Act Op Unit := do
  room.note (.defining name tokens.length)
  Act.modify fun s => { s with dictionary := s.dictionary.insert name (.procedure tokens) }

/-- A declaration makes the top of the stack a declarer. -/
def declareTop (room : Room) (t : Token) : Act Op Unit :=
  if t.kind = .declaration then do
    let name ← Act.peek
    room.note (.declarer name)
    Act.modify fun s => { s with declarers := s.declarers.insert name }
  else pure ()

/-- A closer closes the innermost unit. -/
def closeUnit (room : Room) (t : Token) : Act Op Unit :=
  if t.isCloser then do
    let name ← Act.pop
    Act.modify fun s => { s with depth := s.depth - 1 }
    room.define name (← Act.get).buffer
    Act.modify fun s => if s.depth = 0 then { s with buffer := [] } else s
  else pure ()

/-- Compiles one token. -/
def compile (room : Room) (t : Token) : Act Op Unit := do
  room.declareTop t
  room.closeUnit t
  Act.openUnit t
  Act.keep t

/-! ## Running -/

/-- Runs a token while no unit is open. -/
def obey (room : Room) (call : Act.Call Op) (t : Token) : Act Op Unit := do
  if t.isConstant then Act.push t.payload
  else if t.kind = .comment then pure ()
  else if (← Act.get).isDeclarer t then
    Act.modify fun s => { s with depth := s.depth + 1 }
    room.note (.compiling t.name)
  else call t

/-- Runs a token. -/
def runToken (room : Room) (call : Act.Call Op) (t : Token) : Act Op Unit := do
  room.take (.token t)
  if 0 < (← Act.get).depth then room.compile t else room.obey call t

/-- Runs tokens in order. -/
def interpret (room : Room) (call : Act.Call Op) : List Token → Act Op Unit
  | [] => pure ()
  | t :: ts => do
    room.runToken call t
    room.interpret call ts

/-- Runs words in order, each classified in its turn. -/
def runWords (room : Room) (call : Act.Call Op) : List Word → Act Op Unit
  | [] => pure ()
  | w :: ws => do
    room.runToken call (← Act.orFault (Token.classify w.text))
    room.runWords call ws

/-- Executes a built-in word. Only loading has spots of its own. -/
def builtin (room : Room) (files : Files) (call : Act.Call Op) : Builtin → Act Op Unit
  | .load encoding => do
    let path ← Builtin.popString
    room.note (.loading path)
    room.runWords call (Word.scan (← Act.ofExcept (Source.read files encoding path)))
  | b => b.execute files call

end Room

namespace World

variable {Op : Type}

/-- Does what a definition says, inside the word that has it. -/
def performIn (w : World Op) (room : Room) (call : Act.Call Op) : Definition Op → Act Op Unit
  | .builtin b => room.builtin w.files call b
  | .procedure tokens => room.interpret call tokens
  | d => w.perform call d

/-- Executes the word that a token names on a host, with at most `limit` calls nested; `words` are the
definitions of the words that are being executed already. -/
def executeOn (w : World Op) (host : Host Op) (limit : Nat) (words : List (Definition Op)) (t : Token) :
    Act Op Unit := do
  match (← Act.get).dictionary[t.name]? with
  | none => Act.raise (.unknownName (← Act.orFault t.name.written))
  | some d =>
    match limit with
    | 0 => Act.exceed t
    | limit + 1 => w.performIn ⟨t, host (d :: words)⟩ (w.executeOn host limit (d :: words)) d

/-- Runs a text on a host. -/
def runOn (w : World Op) (host : Host Op) (limit : Nat) (text : String) : Act Op Unit :=
  Act.runText (w.executeOn host limit []) text

/-- Runs a line on a host and answers it. -/
def evalOn (w : World Op) (host : Host Op) (limit : Nat) (line : String) : Act Op Response :=
  (w.runOn host limit line).answered

end World

end WordMachine
