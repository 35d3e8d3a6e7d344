import WordMachine.Machine.Compile

/-!
# Running tokens and texts

Running a token compiles it if a unit is open. Otherwise a constant goes on the stack, a comment does
nothing, a declarer opens a unit, and any other token is called. What calling means is a parameter
here: `call` executes the word that a token names.

A text runs word by word. Each word is classified only when its turn comes, so a numeral that is too
long fails after all before it has run.
-/

namespace WordMachine.Act

variable {Op : Type}

/-- How a machine executes the word that a token names. -/
abbrev Call (Op : Type) := Token → Act Op Unit

/-- Runs a token while no unit is open. -/
def obey (call : Call Op) (t : Token) : Act Op Unit := do
  if t.isConstant then push t.payload
  else if t.kind = .comment then pure ()
  else if (← get).isDeclarer t then
    modify fun s => { s with depth := s.depth + 1 }
    note (.compiling t.name)
  else call t

/-- Runs a token. -/
def runToken (call : Call Op) (t : Token) : Act Op Unit := do
  if 0 < (← get).depth then compile t else obey call t

/-- Runs tokens in order. -/
def interpret (call : Call Op) : List Token → Act Op Unit
  | [] => pure ()
  | t :: ts => do
    runToken call t
    interpret call ts

theorem interpret_append (call : Call Op) (ts us : List Token) :
    interpret call (ts ++ us) = (do interpret call ts; interpret call us) := by
  induction ts with
  | nil => simp [interpret]
  | cons t ts ih => simp [interpret, ih]

/-- Runs words in order, each classified in its turn. -/
def runWords (call : Call Op) : List Word → Act Op Unit
  | [] => pure ()
  | w :: ws => do
    runToken call (← orFault (Token.classify w.text))
    runWords call ws

theorem runWords_append (call : Call Op) (ws vs : List Word) :
    runWords call (ws ++ vs) = (do runWords call ws; runWords call vs) := by
  induction ws with
  | nil => simp [runWords]
  | cons w ws ih => simp [runWords, ih]

/-- Words of which all can be classified run as their tokens do. -/
theorem runWords_eq_interpret (call : Call Op) {ws : List Word} {ts : List Token}
    (h : ws.mapM (fun w => Token.classify w.text) = .ok ts) :
    runWords call ws = interpret call ts := by
  induction ws generalizing ts with
  | nil =>
    rw [List.mapM_nil] at h
    cases h
    rfl
  | cons w ws ih =>
    rw [List.mapM_cons] at h
    cases hw : Token.classify w.text with
    | error f => rw [hw] at h; cases h
    | ok t =>
      cases hs : ws.mapM (fun w => Token.classify w.text) with
      | error f => rw [hw, hs] at h; cases h
      | ok us =>
        rw [hw, hs] at h
        cases h
        simp [runWords, interpret, hw, orFault, ih hs]

/-- Runs a text. -/
def runText (call : Call Op) (text : String) : Act Op Unit :=
  runWords call (Word.scan text)

end WordMachine.Act
