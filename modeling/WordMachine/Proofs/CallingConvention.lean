import WordMachine.Proofs.CallDepth
import WordMachine.Proofs.Inclusion
import WordMachine.Proofs.Reachable

/-!
# The calling convention of stack methods

A name can be bound to a function of any number of values. Executing it takes all its values off the stack
first, the top one first, then applies the function, and then pushes what the function gave back. So it can
fail at two points, and the stack tells them apart: if values are missing, all that there were are gone and
the function was never applied; if the function itself fails, exactly its own values are gone.

The taking is a recursion on the number of values. `Act.applyTop_of_le` says what it comes to where the stack
has enough of them, and `Act.applyTop_of_lt` what where it has not. `StackMethod.Convention` is the whole word.
-/

namespace WordMachine

variable {Op : Type}

/-! ## Functions and replies -/

/-- The values that are pushed for a reply, in the order of pushing. -/
def Reply.values : Reply → List Value
  | nothing => []
  | each values => values
  | one value => [value]

/-- The reply of a function to all its values at once. -/
def StackFunction.on : {n : Nat} → StackFunction n → (Fin n → Value) → Except Failure Reply
  | 0, reply, _ => reply
  | _ + 1, f, args => on (f (args 0)) fun i => args i.succ

/-- The reply of a stack method to the values on top of a stack, the topmost as its first. -/
def StackMethod.replyTo (m : StackMethod) (stack : List Value) (h : m.arity ≤ stack.length) :
    Except Failure Reply :=
  m.function.on fun i => stack.get (i.castLE h)

namespace Act

theorem ofExcept_apply {α : Type} (r : Except Failure α) (s : State Op) :
    ofExcept r s = ⟨r, s, "", []⟩ := by
  cases r with
  | ok a => rfl
  | error e => rfl

/-- Where there are enough values, the function is applied to those on top, and only they are gone. -/
theorem applyTop_of_le {n : Nat} (f : StackFunction n) {s : State Op} (h : n ≤ s.stack.length) :
    applyTop n f s =
      ⟨f.on fun i => s.stack.get (i.castLE h), { s with stack := s.stack.drop n }, "", []⟩ := by
  induction n generalizing s with
  | zero => exact ofExcept_apply f s
  | succ n ih =>
    obtain ⟨dictionary, stack, buffer, depth, declarers⟩ := s
    obtain _ | ⟨v, vs⟩ := stack
    · exact absurd h (by simp)
    · have hvs : n ≤ vs.length := by simpa using h
      rw [applyTop, bind_apply_ok (pop_apply_of_cons rfl),
        ih (f v) (s := ⟨dictionary, vs, buffer, depth, declarers⟩) hvs, Outcome.behind_nil]
      rfl

/-- Where values are missing, those that there are get lost, whatever the function is. -/
theorem applyTop_of_lt {n : Nat} (f : StackFunction n) {s : State Op} (h : s.stack.length < n) :
    applyTop n f s = ⟨.error (.error .emptyStack), { s with stack := [] }, "", []⟩ := by
  induction n generalizing s with
  | zero => omega
  | succ n ih =>
    obtain ⟨dictionary, stack, buffer, depth, declarers⟩ := s
    obtain _ | ⟨v, vs⟩ := stack
    · rw [applyTop, bind_apply_error (pop_apply_of_nil rfl)]
    · have hvs : vs.length < n := by simpa using h
      rw [applyTop, bind_apply_ok (pop_apply_of_cons rfl),
        ih (f v) (s := ⟨dictionary, vs, buffer, depth, declarers⟩) hvs, Outcome.behind_nil]

theorem answer_apply (reply : Reply) (s : State Op) :
    answer reply s = ⟨.ok (), { s with stack := reply.values.reverse ++ s.stack }, "", []⟩ := by
  cases reply with
  | nothing => rfl
  | each values => rfl
  | one value => rfl

end Act

/-! ## The convention -/

/-- The outcome `o` is how a stack method ends in the state `s`. Nothing but the stack ever changes, and
nothing is written. -/
structure StackMethod.Convention (m : StackMethod) (s : State Op) (o : Outcome Op Unit) : Prop where
  /-- What the function gives back is pushed in the place of its values. -/
  returned : ∀ (h : m.arity ≤ s.stack.length) (reply : Reply), m.replyTo s.stack h = .ok reply →
    o = ⟨.ok (), { s with stack := reply.values.reverse ++ s.stack.drop m.arity }, "", []⟩
  /-- A function that fails has taken its values. -/
  raised : ∀ (h : m.arity ≤ s.stack.length) (e : Failure), m.replyTo s.stack h = .error e →
    o = ⟨.error e, { s with stack := s.stack.drop m.arity }, "", []⟩
  /-- Without enough values the stack is left empty, and it makes no difference what the function is. -/
  tooFew : s.stack.length < m.arity →
    o = ⟨.error (.error .emptyStack), { s with stack := [] }, "", []⟩

theorem Act.method_convention (m : StackMethod) (s : State Op) : m.Convention s (method m s) where
  returned h reply hreply := by
    have htop := applyTop_of_le m.function h
    rw [← StackMethod.replyTo, hreply] at htop
    rw [method, bind_apply_ok htop, answer_apply, Outcome.behind_nil]
  raised h e hreply := by
    have htop := applyTop_of_le m.function h
    rw [← StackMethod.replyTo, hreply] at htop
    exact bind_apply_error htop
  tooFew h := bind_apply_error (applyTop_of_lt m.function h)

/-! ## Names bound to stack methods -/

/-- The stack method that a definition is: one of the surrounding program, or one that is built in. -/
def Definition.method? : Definition Op → Option StackMethod
  | method m => some m
  | builtin .join => some Builtin.joinMethod
  | builtin .isZero => some Builtin.isZeroMethod
  | builtin .add => some Builtin.addMethod
  | _ => none

/-- The name is bound to the stack method. -/
def State.Binds (s : State Op) (name : Value) (m : StackMethod) : Prop :=
  ∃ d, s.dictionary[name]? = some d ∧ d.method? = some m

theorem State.binds_addMethod (w : World Op) (limit : Nat) (s : State Op) (name : Value)
    (m : StackMethod) : ((Operation.addMethod name m).act w limit s).state.Binds name m :=
  ⟨.method m, by simp [Operation.act, Act.modify_apply], rfl⟩

theorem State.binds_install (s : State Op) {encoding : Option String} {name : String} {b : Builtin}
    {m : StackMethod} (hname : (name, b) ∈ Builtin.all encoding)
    (hm : (Definition.builtin b : Definition Op).method? = some m) :
    (s.install encoding).Binds (.text name) m :=
  ⟨.builtin b, Dictionary.getElem?_install encoding s.dictionary hname, hm⟩

theorem World.perform_of_method? (w : World Op) (call : Act.Call Op) {d : Definition Op}
    {m : StackMethod} (h : d.method? = some m) : w.perform call d = Act.method m := by
  unfold Definition.method? at h
  split at h
  all_goals cases h
  all_goals rfl

namespace World

/-- **The calling convention of stack methods.** Let `m` be a function of any number of values. A name that
`m` is added under is bound to it, and so are the names of the built-in words that are stack methods. In every
state, executing a name that is bound to `m` follows the convention:

* Of a stack with enough values, the function gets those on top, the topmost first. They are replaced by
  nothing, by the values of the reply in order, or by its one value. If the function fails, they are gone.
* Of a stack with fewer values, all are gone and the word fails for want of them, whatever the function is.

The dictionary, the declarers, the buffer and the depth stay, and nothing is written. -/
theorem stack_methods_convention (w : World Op) (limit : Nat) (m : StackMethod) :
    (∀ (s : State Op) (name : Value),
      ((Operation.addMethod name m).act w limit s).state.Binds name m) ∧
    (∀ (s : State Op) (encoding : Option String) (name : String) (b : Builtin),
      (name, b) ∈ Builtin.all encoding → (Definition.builtin b : Definition Op).method? = some m →
        (s.install encoding).Binds (.text name) m) ∧
    ∀ (s : State Op) (t : Token), s.Binds t.name m →
      m.Convention s (w.execute (limit + 1) t s) := by
  refine ⟨fun s name => s.binds_addMethod w limit name m,
    fun s encoding name b hname hm => s.binds_install hname hm, ?_⟩
  rintro s t ⟨d, hd, hm⟩
  rw [execute_succ_apply hd, w.perform_of_method? _ hm]
  exact Act.method_convention m s

/-- Quotient and remainder of the two top integers, the lower one divided by the top one. -/
def dividing : StackMethod :=
  ⟨2, fun (top lower : Value) => do
    let a ← lower.integer
    let b ← top.integer
    return .each [.int (a / b), .int (a % b)]⟩

/-- A world without files. -/
def bare : World Empty :=
  ofFiles fun _ => .error .notFound

/-- A machine with a word for dividing and the values `stack`. -/
def divider (stack : List Value) : State Empty :=
  ((Operation.addMethod (.text "割る") dividing).act bare 0 { State.new with stack }).state

/-- The three ways in which dividing may end: both results are pushed, a text cannot be divided by, and a
value is missing. -/
theorem stack_methods_convention_dividing :
    bare.execute 1 (Token.identifier "割る") (divider [.int 5, .int 17, .text ""]) =
      ⟨.ok (), divider [.int 2, .int 3, .text ""], "", []⟩ ∧
    bare.execute 1 (Token.identifier "割る") (divider [.text "五", .int 17, .int 0]) =
      ⟨.error (.error (.typeMismatch .integer "'五'")), divider [.int 0], "", []⟩ ∧
    bare.execute 1 (Token.identifier "割る") (divider [.int 5]) =
      ⟨.error (.error .emptyStack), divider [], "", []⟩ := by
  obtain ⟨hadded, -, hfollows⟩ := stack_methods_convention bare 0 dividing
  have hdivider : ∀ stack, dividing.Convention (divider stack)
      (bare.execute 1 (Token.identifier "割る") (divider stack)) := fun stack =>
    hfollows (divider stack) (Token.identifier "割る") (hadded _ _)
  have hquoted : Text.quoted "五" = "'五'" := by decide +kernel
  refine ⟨(hdivider _).returned (by decide) (.each [.int 3, .int 2]) rfl, ?_,
    (hdivider _).tooFew (by decide)⟩
  rw [← hquoted]
  exact (hdivider _).raised (by decide) _ rfl

end World

end WordMachine
