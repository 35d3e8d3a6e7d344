import WordMachine.Encoding.Malformed
import WordMachine.Fault
import WordMachine.Files

/-!
# The machine's errors

`MachineError` holds every failure that a program text can be blamed for. The console answers it and
the command line reports it. A `Failure` is such an error or a `Fault`.
-/

namespace WordMachine

/-- Where a source text comes from. -/
inductive Origin where
  | file (path : String)
  | standardInput
deriving DecidableEq, Repr

/-- The wording of an origin. -/
def Origin.text : Origin → String
  | file path => path
  | standardInput => "standard input"

/-- Why a source cannot be read. -/
inductive ReadError where
  | notOpened (path : String) (reason : OpenError)
  | malformed (m : Encoding.Malformed)
deriving DecidableEq, Repr

/-- The wording of the reason. -/
def ReadError.text : ReadError → String
  | notOpened path reason =>
    "[Errno " ++ reason.code.repr ++ "] " ++ reason.text ++ ": " ++ Text.quoted path
  | malformed m => m.message

/-- The two types of values. -/
inductive ValueType where
  | integer
  | text
deriving DecidableEq, Repr

/-- A type with its article, as messages name it. -/
def ValueType.phrase : ValueType → String
  | integer => "an integer"
  | text => "text"

/-- A failure of a program. -/
inductive MachineError where
  /-- No word has this name. -/
  | unknownName (name : String)
  /-- A value was wanted from an empty stack. -/
  | emptyStack
  /-- A value of the other type was wanted; `got` shows the value. -/
  | typeMismatch (expected : ValueType) (got : String)
  | sourceUnreadable (origin : Origin) (reason : ReadError)
  /-- Words call each other too deep; `name` is the innermost one. -/
  | callDepthExceeded (name : String)
deriving DecidableEq, Repr

namespace MachineError

/-- The name of the kind of error. -/
def label : MachineError → String
  | unknownName _ => "UnknownName"
  | emptyStack => "EmptyStackAccess"
  | typeMismatch _ _ => "TypeMismatch"
  | sourceUnreadable _ _ => "SourceUnreadable"
  | callDepthExceeded _ => "CallDepthExceeded"

/-- The text of an error. -/
def message : MachineError → String
  | unknownName name => "unknown name: " ++ name
  | emptyStack => "stack underflow"
  | typeMismatch expected got => "expected " ++ expected.phrase ++ ", got " ++ got
  | sourceUnreadable origin reason => "cannot read " ++ origin.text ++ ": " ++ reason.text
  | callDepthExceeded name => "call depth exceeded in " ++ name

end MachineError

/-- How a run may fail. -/
inductive Failure where
  | error (e : MachineError)
  | fault (f : Fault)
deriving DecidableEq, Repr

end WordMachine
