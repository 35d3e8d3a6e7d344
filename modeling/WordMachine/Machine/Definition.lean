import Std.Data.ExtTreeMap
import WordMachine.MachineError
import WordMachine.Token

/-!
# Definitions

What a word of the dictionary does when it is executed. A word is built in, or it is a function of
the top of the stack, or it runs tokens that were compiled, or it is an operation of the
surrounding program. The type `Op` names the operations of the last kind; a machine without any
has `Op := Empty`.
-/

namespace WordMachine

/-! ## Values of one type -/

/-- The integer that a value is. -/
def Value.integer : Value → Except Failure Int
  | int n => .ok n
  | text t => .error (.error (.typeMismatch .integer (Text.quoted t)))

/-- The text that a value is. -/
def Value.string : Value → Except Failure String
  | text t => .ok t
  | int n =>
    match Numeral.write n with
    | .ok shown => .error (.error (.typeMismatch .text shown))
    | .error f => .error (.fault f)

/-! ## Kinds of words -/

/-- What a function of the stack gives back: nothing to push, several values to push in order, or
one value. -/
inductive Reply where
  | nothing
  | each (values : List Value)
  | one (value : Value)
deriving DecidableEq, Repr

/-- A function of `n` values that may fail. It takes them one by one, the top of the stack first. -/
def StackFunction : Nat → Type
  | 0 => Except Failure Reply
  | n + 1 => Value → StackFunction n

/-- A function of the top of the stack, with the number of values it takes. -/
structure StackMethod where
  arity : Nat
  function : StackFunction arity

/-- The words that every program starts with. -/
inductive Builtin where
  /-- Writes the top value. -/
  | write
  /-- Writes a line feed. -/
  | newline
  /-- Executes the word that the top value names. -/
  | perform
  /-- Pushes the number of values on the stack. -/
  | depth
  /-- Pushes a copy of the bottom value. -/
  | copyBottom
  /-- Changes the sign of the bottom value. -/
  | negateBottom
  /-- Runs the source at the path on top of the stack, stored in the encoding of this name. Without a
  name nothing can be loaded. -/
  | load (encoding : Option String)
  /-- Puts the texts of the two top values together. -/
  | join
  /-- Whether the top value is zero, as 1 or 0. -/
  | isZero
  /-- Adds the two top values. -/
  | add
deriving DecidableEq, Repr

namespace Builtin

/-- The built-in words and their names. Sources that they load are stored in `encoding`. -/
def all (encoding : Option String) : List (String × Builtin) :=
  [("書く", write), ("改行", newline), ("実行", perform), ("深さ", depth), ("複製", copyBottom),
   ("反転", negateBottom), ("読み込む", load encoding), ("繋ぐ", join), ("零か", isZero),
   ("足す", add)]

end Builtin

/-- What a word does. -/
inductive Definition (Op : Type) where
  | builtin (b : Builtin)
  | method (m : StackMethod)
  | custom (op : Op)
  /-- A compiled word. -/
  | procedure (tokens : List Token)

/-- The tokens of a compiled word. -/
def Definition.tokens? {Op : Type} : Definition Op → Option (List Token)
  | procedure tokens => some tokens
  | _ => none

/-- The words that are defined, by name. -/
abbrev Dictionary (Op : Type) := Std.ExtTreeMap Value (Definition Op)

/-- A dictionary with the built-in words added. -/
def Dictionary.install {Op : Type} (encoding : Option String) (d : Dictionary Op) : Dictionary Op :=
  (Builtin.all encoding).foldl (fun d w => d.insert (.text w.1) (.builtin w.2)) d

end WordMachine
