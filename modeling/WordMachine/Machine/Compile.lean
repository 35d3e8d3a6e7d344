import WordMachine.Machine.Act

/-!
# Compiling

While a unit is open, a token is not executed but kept. Compiling one token has four steps, and each
of them looks at the state that the one before it left.

1. A declaration makes the value on top of the stack a declarer.
2. A closer takes the top off the stack and closes the innermost unit: all tokens in the buffer
   become the word of that name. The buffer is emptied only if no unit is left open, so an inner
   unit's word also holds the tokens of the outer unit that came before it.
3. An identifier among the declarers opens a unit.
4. If a unit is open, the token goes into the buffer.

A step fails here only for want of a value on the stack. `Room.compile` is the same work on a host, which can run
short in the middle of it.
-/

namespace WordMachine.Act

variable {Op : Type}

/-- Defines a word by tokens. -/
def define (name : Value) (tokens : List Token) : Act Op Unit := do
  note (.defining name tokens.length)
  modify fun s => { s with dictionary := s.dictionary.insert name (.procedure tokens) }

/-- The first step: a declaration makes the top of the stack a declarer. -/
def declareTop (t : Token) : Act Op Unit :=
  if t.kind = .declaration then do
    let name ← peek
    note (.declarer name)
    modify fun s => { s with declarers := s.declarers.insert name }
  else pure ()

/-- The second step: a closer closes the innermost unit. -/
def closeUnit (t : Token) : Act Op Unit :=
  if t.isCloser then do
    let name ← pop
    modify fun s => { s with depth := s.depth - 1 }
    define name (← get).buffer
    modify fun s => if s.depth = 0 then { s with buffer := [] } else s
  else pure ()

/-- The third step: an identifier among the declarers opens a unit. -/
def openUnit (t : Token) : Act Op Unit :=
  modify fun s =>
    if t.kind = .identifier ∧ s.declarers.contains t.name then { s with depth := s.depth + 1 }
    else s

/-- The fourth step: inside a unit the token is kept. -/
def keep (t : Token) : Act Op Unit :=
  modify fun s => if 0 < s.depth then { s with buffer := s.buffer ++ [t] } else s

/-- Compiles one token. -/
def compile (t : Token) : Act Op Unit := do
  declareTop t
  closeUnit t
  openUnit t
  keep t

end WordMachine.Act
