import Std.Data.ExtTreeSet
import WordMachine.Machine.Definition

/-!
# The state of a machine

A machine has a dictionary of words, a stack of values, and what it needs to compile: the tokens
compiled so far, the number of units that are open, and the names that open a unit. It is compiling
as long as a unit is open, and otherwise executing.
-/

namespace WordMachine

/-- What a machine does with the next token. -/
inductive Mode where
  | executing
  | compiling
deriving DecidableEq, Repr

/-- The number that stands for a mode. -/
def Mode.code : Mode → Nat
  | executing => 9900
  | compiling => 9901

/-- The state of a machine. The first value of `stack` is its top. -/
structure State (Op : Type) where
  dictionary : Dictionary Op
  stack : List Value
  /-- The tokens compiled since the outermost open unit began. -/
  buffer : List Token
  /-- How many units are open. -/
  depth : Nat
  /-- The names that open a unit when they stand as an identifier. -/
  declarers : Std.ExtTreeSet Value

namespace State

variable {Op : Type}

/-- A machine without words. -/
def new : State Op :=
  ⟨∅, [], [], 0, ∅⟩

/-- Whether a unit is open. -/
def mode (s : State Op) : Mode :=
  if 0 < s.depth then .compiling else .executing

/-- Adds the built-in words. -/
def install (encoding : Option String) (s : State Op) : State Op :=
  { s with dictionary := s.dictionary.install encoding }

/-- Whether a token opens a unit while executing: a declaration, or an identifier among the
declarers. -/
def isDeclarer (s : State Op) (t : Token) : Bool :=
  t.kind = .declaration || (t.kind = .identifier && s.declarers.contains t.name)

/-- Drops the stack and all units that are open; definitions and declarers stay. -/
def reset (s : State Op) : State Op :=
  { s with stack := [], buffer := [], depth := 0 }

end State

end WordMachine
