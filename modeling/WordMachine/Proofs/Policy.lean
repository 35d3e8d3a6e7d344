import WordMachine.Proofs.CallDepth
import WordMachine.Proofs.Classified
import WordMachine.Proofs.Compiling
import WordMachine.Proofs.Pieces

/-!
# What runs may handle

A `Policy` says which characters the values of a machine may be made of, which texts the machine may be given,
what its sources may be stored in, and which failures its runs may come to. Its laws are what a single step
needs: integers can be written, a literal of an allowed text holds allowed characters, and a word that cannot
be classified is an allowed failure. `Policy.AllowsFiles` is the law about files: a source that is loaded is an
allowed text.

`Act.Keeps p Q m` says that `m` leads from a state that obeys the policy to one that obeys it, with allowed
output, and to a failure that is allowed or a result with the property `Q`. Doing one act after the other keeps
this (`Keeps.bind`), so it is enough to look at the acts that a run is made of. Whole runs follow token by
token, and through calls by induction on the limit (`World.callsKeep_execute`). Unlike an `Invariant`, a policy
sees the stack, the output and the end of a run.
-/

namespace WordMachine

/-- All characters of the text have the property. -/
def Text.Within (P : Char → Prop) (t : String) : Prop :=
  ∀ c ∈ t.toList, P c

/-- All characters of the value have the property; an integer has none. -/
def Value.Within (P : Char → Prop) : Value → Prop
  | int _ => True
  | text t => Text.Within P t

/-- A result with the property `Q`, or an error with the property `F`. -/
def Ends {ε α : Type} (F : ε → Prop) (Q : α → Prop) : Except ε α → Prop
  | .ok a => Q a
  | .error e => F e

/-- What the runs of a machine may handle and come to. -/
structure Policy where
  /-- What the values of the machine and its output may be made of. -/
  char : Char → Prop
  /-- What may be run as a text. -/
  text : String → Prop
  /-- What sources may be stored in. -/
  encoding : Option String → Prop
  /-- How a run may fail. -/
  failure : Failure → Prop
  digit {c : Char} : c.isDigit = true → char c
  minus : char '-'
  newline : char '\n'
  error (e : MachineError) : failure (.error e)
  tooLong : failure (.fault .integerTooLong)
  literal {x : String} {w : Word} {t : Token} : text x → w ∈ Word.scan x →
    Token.classify w.text = .ok t → t.kind = .literal → t.payload.Within char
  unread {x : String} {w : Word} {f : Fault} : text x → w ∈ Word.scan x →
    Token.classify w.text = .error f → failure (.fault f)

/-- Whatever a machine with these files loads is an allowed text, or fails in an allowed way. -/
def Policy.AllowsFiles (p : Policy) (files : Files) : Prop :=
  ∀ (e : Option String) (path : String), p.encoding e → Text.Within p.char path →
    Ends p.failure p.text (Source.read files e path)

variable {Op α β : Type}

namespace Text

theorem within_append {P : Char → Prop} {a b : String} (ha : Within P a) (hb : Within P b) :
    Within P (a ++ b) := by
  intro c hc
  rw [String.toList_append] at hc
  rcases List.mem_append.mp hc with hc | hc
  · exact ha c hc
  · exact hb c hc

theorem within_empty (P : Char → Prop) : Within P "" := by
  simp [Within]

end Text

namespace Ends

variable {ε : Type} {F : ε → Prop} {Q : α → Prop} {R : β → Prop}

theorem bind {x : Except ε α} {f : α → Except ε β} (hx : Ends F Q x)
    (hf : ∀ a, Q a → Ends F R (f a)) : Ends F R (x >>= f) := by
  cases x with
  | ok a => exact hf a hx
  | error e => exact hx

theorem of_cases {x : Except ε α} (hok : ∀ a, x = .ok a → Q a) (herror : ∀ e, x = .error e → F e) :
    Ends F Q x := by
  cases x with
  | ok a => exact hok a rfl
  | error e => exact herror e rfl

end Ends

namespace Policy

variable (p : Policy)

/-! ## What is allowed -/

/-- A token that a text may have: what it puts on the stack is allowed. -/
structure AllowsToken (t : Token) : Prop where
  classified : t.Classified
  constant : t.isConstant = true → t.payload.Within p.char

/-- A word of the machine itself: a built-in one, or tokens that are allowed. -/
def Allows : Definition Op → Prop
  | .builtin b => ∀ e, b = .load e → p.encoding e
  | .method _ => False
  | .custom _ => False
  | .procedure tokens => ∀ t ∈ tokens, p.AllowsToken t

/-- All that the state holds is allowed. -/
structure Obeyed (s : State Op) : Prop where
  stack : ∀ v ∈ s.stack, v.Within p.char
  buffer : ∀ t ∈ s.buffer, p.AllowsToken t
  declarers : ∀ v ∈ s.declarers, v.Within p.char
  words : ∀ (name : Value) (d : Definition Op), s.dictionary[name]? = some d →
    name.Within p.char ∧ p.Allows d

/-- A word of an allowed text that can be classified gives an allowed token. -/
theorem allowsToken_of_classify {x : String} {w : Word} {t : Token} (hx : p.text x)
    (hw : w ∈ Word.scan x) (ht : Token.classify w.text = .ok t) : p.AllowsToken t where
  classified := ⟨w.text, ht⟩
  constant := by
    intro hconstant
    rcases Token.classify_cases ht with ⟨n, -, rfl⟩ | ⟨-, rfl⟩ | ⟨-, rfl⟩ | ⟨-, rfl⟩ | rfl
    · exact trivial
    · exact p.literal hx hw ht rfl
    · cases hconstant
    · cases hconstant
    · cases hconstant

/-! ## Values of one type -/

theorem within_decimal (n : Int) : Text.Within p.char (String.ofList (Numeral.decimal n)) := by
  have hdigits : ∀ c ∈ Nat.toDigits 10 n.natAbs, p.char c := fun c hc =>
    p.digit (Nat.isDigit_of_mem_toDigits (by decide) (by decide) hc)
  intro c hc
  rw [String.toList_ofList, Numeral.decimal] at hc
  split at hc
  · rcases List.mem_cons.mp hc with rfl | hc
    · exact p.minus
    · exact hdigits c hc
  · exact hdigits c hc

theorem ends_written {v : Value} (hv : v.Within p.char) :
    Ends (fun f => p.failure (.fault f)) (Text.Within p.char) v.written := by
  cases v with
  | text t => exact hv
  | int n =>
    rw [Value.written, Numeral.write]
    split
    · exact p.tooLong
    · exact p.within_decimal n

theorem ends_string {v : Value} (hv : v.Within p.char) :
    Ends p.failure (Text.Within p.char) v.string := by
  cases v with
  | text t => exact hv
  | int n =>
    -- the value that is no text is shown, and that may fail
    have hshown := p.ends_written (v := .int n) trivial
    rw [Value.written] at hshown
    rw [Value.string]
    split
    · exact p.error _
    · rename_i f hwrite
      rw [hwrite] at hshown
      exact hshown

theorem ends_integer (v : Value) : Ends p.failure (fun _ => True) v.integer := by
  cases v with
  | int n => exact trivial
  | text t => exact p.error _

end Policy

/-- An outcome that the policy allows, with the property `Q` of its result. -/
structure Outcome.Keeps (p : Policy) (Q : α → Prop) (o : Outcome Op α) : Prop where
  state : p.Obeyed o.state
  output : Text.Within p.char o.output
  ended : ∀ a, o.result = .ok a → Q a
  failed : ∀ e, o.result = .error e → p.failure e

namespace Act

/-- From a state that obeys the policy the act comes to an outcome that is allowed. -/
def Keeps (p : Policy) (Q : α → Prop) (m : Act Op α) : Prop :=
  ∀ s, p.Obeyed s → (m s).Keeps p Q

namespace Keeps

variable {p : Policy} {Q : α → Prop} {R : β → Prop}

/-! ## Elementary acts -/

theorem pure {a : α} (h : Q a) : Keeps p Q (pure a : Act Op α) := by
  intro s hs
  refine ⟨hs, Text.within_empty _, ?_, nofun⟩
  rintro b ⟨⟩
  exact h

theorem fail {e : Failure} (h : p.failure e) : Keeps p Q (Act.fail e : Act Op α) := by
  intro s hs
  refine ⟨hs, Text.within_empty _, nofun, ?_⟩
  rintro f ⟨⟩
  exact h

theorem write {text : String} (h : Text.Within p.char text) :
    Keeps p (fun _ => True) (Act.write text : Act Op Unit) :=
  fun _ hs => ⟨hs, h, fun _ _ => trivial, nofun⟩

theorem note (n : Note) : Keeps p (fun _ => True) (Act.note n : Act Op Unit) :=
  fun _ hs => ⟨hs, Text.within_empty _, fun _ _ => trivial, nofun⟩

theorem modify {f : State Op → State Op} (h : ∀ s, p.Obeyed s → p.Obeyed (f s)) :
    Keeps p (fun _ => True) (Act.modify f) :=
  fun s hs => ⟨h s hs, Text.within_empty _, fun _ _ => trivial, nofun⟩

theorem bind {m : Act Op α} {f : α → Act Op β} (hm : Keeps p Q m)
    (hf : ∀ a, Q a → Keeps p R (f a)) : Keeps p R (m >>= f) := by
  intro s hs
  have hfirst := hm s hs
  cases hr : (m s).result with
  | ok a =>
    have hlater := hf a (hfirst.ended a hr) (m s).state hfirst.state
    rw [bind_apply_of_ok hr]
    exact ⟨hlater.state, Text.within_append hfirst.output hlater.output, hlater.ended,
      hlater.failed⟩
  | error e =>
    rw [bind_apply_of_error hr]
    refine ⟨hfirst.state, hfirst.output, nofun, ?_⟩
    rintro f ⟨⟩
    exact hfirst.failed e hr

theorem get_bind {f : State Op → Act Op α} (h : ∀ s, p.Obeyed s → (f s s).Keeps p Q) :
    Keeps p Q (get >>= f) := by
  intro s hs
  rw [get_bind_apply]
  exact h s hs

theorem ofExcept {x : Except Failure α} (h : Ends p.failure Q x) :
    Keeps p Q (Act.ofExcept x : Act Op α) := by
  cases x with
  | ok a => exact .pure h
  | error e => exact .fail h

theorem orFault {x : Except Fault α} (h : Ends (fun f => p.failure (.fault f)) Q x) :
    Keeps p Q (Act.orFault x : Act Op α) := by
  cases x with
  | ok a => exact .pure h
  | error f => exact .fail h

/-! ## The stack -/

theorem restack {f : List Value → List Value}
    (h : ∀ vs : List Value, (∀ v ∈ vs, v.Within p.char) → ∀ v ∈ f vs, v.Within p.char) :
    Keeps p (fun _ => True) (Act.modify fun s : State Op => { s with stack := f s.stack }) :=
  modify fun s hs => ⟨h s.stack hs.stack, hs.buffer, hs.declarers, hs.words⟩

theorem pop : Keeps p (Value.Within p.char) (pop : Act Op Value) := by
  intro s hs
  cases hstack : s.stack with
  | nil =>
    rw [pop_apply_of_nil hstack]
    exact Keeps.fail (p.error .emptyStack) s hs
  | cons v vs =>
    have hvalues := hs.stack
    rw [hstack] at hvalues
    rw [pop_apply_of_cons hstack]
    refine ⟨⟨fun u hu => hvalues u (by simp [hu]), hs.buffer, hs.declarers, hs.words⟩,
      Text.within_empty _, ?_, nofun⟩
    rintro u ⟨⟩
    exact hvalues v (by simp)

theorem push {v : Value} (h : v.Within p.char) :
    Keeps p (fun _ => True) (Act.push v : Act Op Unit) := by
  refine restack (f := fun vs => v :: vs) fun vs hvs u hu => ?_
  rcases List.mem_cons.mp hu with rfl | hu
  · exact h
  · exact hvs u hu

theorem pushAll {values : List Value} (h : ∀ v ∈ values, v.Within p.char) :
    Keeps p (fun _ => True) (Act.pushAll values : Act Op Unit) := by
  refine restack (f := fun vs => values.reverse ++ vs) fun vs hvs u hu => ?_
  rcases List.mem_append.mp hu with hu | hu
  · exact h u (List.mem_reverse.mp hu)
  · exact hvs u hu

end Keeps

end Act

/-! ## Compiling and running -/

namespace Policy

variable {p : Policy}

theorem Obeyed.top {s : State Op} (hs : p.Obeyed s) : s.top.Within p.char := by
  cases hstack : s.stack with
  | nil =>
    rw [State.top, hstack]
    exact trivial
  | cons v vs =>
    rw [State.top_of_cons hstack]
    exact hs.stack v (by simp [hstack])

/-- What compiling adds to a state was in it before, or is the token itself. -/
theorem Obeyed.compiled {s : State Op} {t : Token} (hs : p.Obeyed s) (ht : p.AllowsToken t) :
    p.Obeyed (s.compiled t) where
  stack v hv := hs.stack v (State.mem_stack_of_compiled hv)
  buffer := by
    intro u hu
    rcases State.mem_buffer_of_compiled hu with hold | rfl
    · exact hs.buffer u hold
    · exact ht
  declarers := by
    intro v hv
    rcases State.mem_declarers_of_compiled hv with hold | rfl
    · exact hs.declarers v hold
    · exact hs.top
  words := by
    intro name d hd
    rcases State.getElem?_of_compiled hd with hold | ⟨rfl, rfl⟩
    · exact hs.words name d hold
    · exact ⟨hs.top, hs.buffer⟩

theorem Obeyed.reset {s : State Op} (hs : p.Obeyed s) : p.Obeyed s.reset :=
  ⟨nofun, nofun, hs.declarers, hs.words⟩

end Policy

namespace Act

variable {p : Policy} {call : Call Op}

/-- Calls under a text as the name keep the policy. -/
def CallsKeep (p : Policy) (call : Call Op) : Prop :=
  ∀ (t : Token) (name : String), t.name = .text name → Keeps p (fun _ => True) (call t)

theorem keeps_compile {t : Token} (ht : p.AllowsToken t) :
    Keeps p (fun _ => True) (compile t : Act Op Unit) := by
  intro s hs
  rcases compile_cases t s with hfails | hcompiles
  · rw [hfails]
    exact Keeps.fail (p.error .emptyStack) s hs
  · rw [hcompiles]
    exact ⟨hs.compiled ht, Text.within_empty _, fun _ _ => trivial, nofun⟩

section Running

variable (hcall : CallsKeep p call)
include hcall

theorem keeps_obey {t : Token} (ht : p.AllowsToken t) :
    Keeps p (fun _ => True) (obey call t) := by
  obtain ⟨name, hname⟩ := ht.classified.exists_name_eq
  unfold obey
  split
  · rename_i hconstant
    exact .push (ht.constant hconstant)
  · split
    · exact .pure trivial
    · refine .get_bind fun s hs => ?_
      split
      · have henter : Keeps p (fun _ => True)
            (modify fun s : State Op => { s with depth := s.depth + 1 }) :=
          .modify fun s hs => ⟨hs.stack, hs.buffer, hs.declarers, hs.words⟩
        exact henter.bind (fun _ _ => .note _) s hs
      · exact hcall t name hname s hs

theorem keeps_runToken {t : Token} (ht : p.AllowsToken t) :
    Keeps p (fun _ => True) (runToken call t) := by
  refine .get_bind fun s hs => ?_
  split
  · exact keeps_compile ht s hs
  · exact keeps_obey hcall ht s hs

theorem keeps_interpret {ts : List Token} (hts : ∀ t ∈ ts, p.AllowsToken t) :
    Keeps p (fun _ => True) (interpret call ts) := by
  induction ts with
  | nil => exact .pure trivial
  | cons t ts ih =>
    exact (keeps_runToken hcall (hts t (by simp))).bind fun _ _ => ih fun u hu => hts u (by simp [hu])

/-- Some of the words of an allowed text, in whatever order. -/
theorem keeps_runWords {x : String} (hx : p.text x) {ws : List Word} (hws : ws ⊆ Word.scan x) :
    Keeps p (fun _ => True) (runWords call ws) := by
  induction ws with
  | nil => exact .pure trivial
  | cons w ws ih =>
    obtain ⟨hw, hlater⟩ := List.cons_subset.mp hws
    have hclassify := Ends.of_cases (fun _ => p.allowsToken_of_classify hx hw) fun _ => p.unread hx hw
    exact (Keeps.orFault hclassify).bind fun t ht =>
      (keeps_runToken hcall ht).bind fun _ _ => ih hlater

theorem keeps_runText {x : String} (hx : p.text x) :
    Keeps p (fun _ => True) (runText call x) :=
  keeps_runWords hcall hx fun _ => id

end Running

end Act

/-! ## Functions of the stack -/

namespace Policy

variable (p : Policy)

/-- What is pushed for a reply is allowed. -/
def AllowsReply : Reply → Prop
  | .nothing => True
  | .each values => ∀ v ∈ values, v.Within p.char
  | .one value => value.Within p.char

/-- Of allowed values the function gives an allowed reply, or fails in an allowed way. -/
def AllowsFunction : (n : Nat) → StackFunction n → Prop
  | 0, reply => Ends p.failure p.AllowsReply reply
  | n + 1, f => ∀ v : Value, v.Within p.char → AllowsFunction n (f v)

theorem allowsFunction_join : p.AllowsFunction 2 Builtin.joinMethod.function := by
  intro top htop lower hlower
  have hjoined : Ends (fun f => p.failure (.fault f)) (Text.Within p.char)
      (Builtin.joined top lower) :=
    (p.ends_written hlower).bind fun a ha => (p.ends_written htop).bind fun b hb =>
      Text.within_append ha hb
  unfold Builtin.joinMethod
  simp only [AllowsFunction]
  cases hj : Builtin.joined top lower with
  | ok t =>
    rw [hj] at hjoined
    exact hjoined
  | error f =>
    rw [hj] at hjoined
    exact hjoined

theorem allowsFunction_isZero : p.AllowsFunction 1 Builtin.isZeroMethod.function :=
  fun top _ => (p.ends_integer top).bind fun _ _ => trivial

theorem allowsFunction_add : p.AllowsFunction 2 Builtin.addMethod.function :=
  fun top _ lower _ => (p.ends_integer lower).bind fun _ _ => (p.ends_integer top).bind fun _ _ => trivial

end Policy

namespace Act

variable {p : Policy}

theorem keeps_applyTop {n : Nat} {f : StackFunction n} (h : p.AllowsFunction n f) :
    Keeps p p.AllowsReply (applyTop n f : Act Op Reply) := by
  induction n with
  | zero => exact .ofExcept h
  | succ n ih => exact Keeps.pop.bind fun v hv => ih (h v hv)

theorem keeps_answer {r : Reply} (h : p.AllowsReply r) :
    Keeps p (fun _ => True) (answer r : Act Op Unit) := by
  cases r with
  | nothing => exact .pure trivial
  | each values => exact .pushAll h
  | one value => exact .push h

theorem keeps_method {m : StackMethod} (h : p.AllowsFunction m.arity m.function) :
    Keeps p (fun _ => True) (method m : Act Op Unit) :=
  (keeps_applyTop h).bind fun _ => keeps_answer

end Act

/-! ## Words -/

namespace Builtin

variable {p : Policy}

theorem keeps_popString : Act.Keeps p (Text.Within p.char) (popString : Act Op String) :=
  Act.Keeps.pop.bind fun _ hv => .ofExcept (p.ends_string hv)

theorem keeps_bottom : Act.Keeps p (Value.Within p.char) (bottom : Act Op Value) := by
  refine .get_bind fun s hs => ?_
  cases hlast : s.stack.getLast? with
  | none => exact Act.Keeps.fail (p.error .emptyStack) s hs
  | some v => exact Act.Keeps.pure (hs.stack v (List.mem_of_getLast? hlast)) s hs

theorem keeps_execute {files : Files} (hfiles : p.AllowsFiles files) {call : Act.Call Op}
    (hcall : Act.CallsKeep p call) {b : Builtin} (hb : ∀ e, b = .load e → p.encoding e) :
    Act.Keeps p (fun _ => True) (b.execute files call) := by
  cases b with
  | write =>
    exact Act.Keeps.pop.bind fun v hv => (Act.Keeps.orFault (p.ends_written hv)).bind fun _ => .write
  | newline =>
    refine .write fun c hc => ?_
    obtain rfl : c = '\n' := by simpa using hc
    exact p.newline
  | perform => exact keeps_popString.bind fun name _ => hcall (Token.identifier name) name rfl
  | depth => exact .get_bind fun s hs => Act.Keeps.push (v := .int _) trivial s hs
  | copyBottom => exact keeps_bottom.bind fun _ => .push
  | negateBottom =>
    refine keeps_bottom.bind fun v _ => (Act.Keeps.ofExcept (p.ends_integer v)).bind fun n _ => ?_
    refine .restack (f := fun vs => vs.dropLast ++ [.int (-n)]) fun vs hvs u hu => ?_
    rcases List.mem_append.mp hu with hu | hu
    · exact hvs u ((List.dropLast_sublist vs).subset hu)
    · obtain rfl := List.mem_singleton.mp hu
      exact trivial
  | load e =>
    exact keeps_popString.bind fun path hpath => (Act.Keeps.note _).bind fun _ _ =>
      (Act.Keeps.ofExcept (hfiles e path (hb e rfl) hpath)).bind fun _ => Act.keeps_runText hcall
  | join => exact Act.keeps_method p.allowsFunction_join
  | isZero => exact Act.keeps_method p.allowsFunction_isZero
  | add => exact Act.keeps_method p.allowsFunction_add

end Builtin

namespace World

variable {p : Policy} {w : World Op}

theorem keeps_execute_of_none {t : Token} {name : String} (hname : t.name = .text name) {s : State Op}
    (hs : p.Obeyed s) (hd : s.dictionary[t.name]? = none) (limit : Nat) :
    (w.execute limit t s).Keeps p fun _ => True := by
  rw [execute_apply_of_none hd, hname]
  exact Act.Keeps.fail (p.error (.unknownName name)) s hs

variable (hfiles : p.AllowsFiles w.files)
include hfiles

theorem keeps_perform {call : Act.Call Op} (hcall : Act.CallsKeep p call) {d : Definition Op}
    (hd : p.Allows d) : Act.Keeps p (fun _ => True) (w.perform call d) := by
  cases d with
  | builtin b => exact Builtin.keeps_execute hfiles hcall hd
  | method m => exact hd.elim
  | custom op => exact hd.elim
  | procedure tokens => exact Act.keeps_interpret hcall hd

/-- Calls keep the policy, however deep they are nested. -/
theorem callsKeep_execute (limit : Nat) : Act.CallsKeep p (w.execute limit) := by
  induction limit with
  | zero =>
    intro t name hname s hs
    cases hd : s.dictionary[t.name]? with
    | none => exact keeps_execute_of_none hname hs hd 0
    | some d =>
      rw [execute_zero_apply hd, Act.exceed, hname]
      exact Act.Keeps.fail (p.error (.callDepthExceeded name)) s hs
  | succ limit ih =>
    intro t name hname s hs
    cases hd : s.dictionary[t.name]? with
    | none => exact keeps_execute_of_none hname hs hd (limit + 1)
    | some d =>
      rw [execute_succ_apply hd]
      exact keeps_perform hfiles ih (hs.words _ d hd).2 s hs

theorem keeps_run (limit : Nat) {x : String} (hx : p.text x) :
    Act.Keeps p (fun _ => True) (w.run limit x) :=
  Act.keeps_runText (callsKeep_execute hfiles limit) hx

theorem keeps_eval (limit : Nat) {line : String} (hline : p.text line) :
    Act.Keeps p (fun _ => True) (w.eval limit line) := by
  intro s hs
  have hrun := keeps_run hfiles limit hline s hs
  cases hr : (w.run limit line s).result with
  | ok u =>
    rw [eval_of_run_ok hr]
    exact ⟨hrun.state, hrun.output, fun _ _ => trivial, nofun⟩
  | error e =>
    cases e with
    | error e =>
      rw [eval_of_run_raise hr]
      exact ⟨hrun.state.reset, hrun.output, fun _ _ => trivial, nofun⟩
    | fault f =>
      rw [eval_of_run_fault hr]
      refine ⟨hrun.state, hrun.output, nofun, ?_⟩
      rintro e ⟨⟩
      exact hrun.failed _ hr

end World

/-! ## The built-in words -/

/-- A word of a dictionary with words added is an added one or an old one. -/
theorem Dictionary.foldl_insert_cases (ws : List (String × Builtin)) (d : Dictionary Op)
    {name : Value} {e : Definition Op}
    (h : (ws.foldl (fun d w => d.insert (.text w.1) (.builtin w.2)) d)[name]? = some e) :
    (∃ w ∈ ws, name = .text w.1 ∧ e = .builtin w.2) ∨ d[name]? = some e := by
  induction ws generalizing d with
  | nil => exact .inr h
  | cons w ws ih =>
    rcases ih _ h with ⟨v, hv, hname, he⟩ | hold
    · exact .inl ⟨v, by simp [hv], hname, he⟩
    · rw [Std.ExtTreeMap.getElem?_insert] at hold
      split at hold
      · rename_i heq
        cases hold
        exact .inl ⟨w, by simp, (Std.LawfulEqOrd.eq_of_compare heq).symm, rfl⟩
      · exact .inr hold

theorem Builtin.map_fst_all (encoding : Option String) :
    (all encoding).map Prod.fst = (all none).map Prod.fst := rfl

theorem Builtin.encoding_of_mem_all {encoding e : Option String} {name : String}
    (h : (name, .load e) ∈ all encoding) : e = encoding := by
  have hload : name = "読み込む" ∧ e = encoding := by simpa [all] using h
  exact hload.2

/-- The names of the built-in words are written in kana and kanji. -/
theorem Builtin.le_toNat_of_mem_name {name : String} (h : name ∈ (all none).map Prod.fst) {c : Char}
    (hc : c ∈ name.toList) : 0x3041 ≤ c.toNat := by
  have hall : ((all none).map Prod.fst).all (fun name => name.toList.all (0x3041 ≤ ·.toNat)) = true := by
    decide +kernel
  simpa using List.all_eq_true.mp (List.all_eq_true.mp hall name h) c hc

/-- A new machine with the built-in words obeys, if kana and kanji are allowed. -/
theorem Policy.obeyed_install {p : Policy} {encoding : Option String}
    (hencoding : p.encoding encoding) (hchar : ∀ c : Char, 0x3041 ≤ c.toNat → p.char c) :
    p.Obeyed (State.new.install encoding : State Op) where
  stack := nofun
  buffer := nofun
  declarers v hv := absurd hv Std.ExtTreeSet.not_mem_empty
  words := by
    intro name d hd
    rcases Dictionary.foldl_insert_cases _ _ hd with ⟨⟨text, b⟩, hmem, rfl, rfl⟩ | hnew
    · refine ⟨fun c hc => hchar c (Builtin.le_toNat_of_mem_name ?_ hc), ?_⟩
      · rw [← Builtin.map_fst_all encoding]
        exact List.mem_map_of_mem hmem
      · rintro e rfl
        rw [Builtin.encoding_of_mem_all hmem]
        exact hencoding
    · simp [State.new] at hnew

end WordMachine
