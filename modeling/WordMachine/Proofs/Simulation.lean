import WordMachine.Proofs.CallDepth
import WordMachine.Proofs.Compiling

/-!
# Runs that are simulated by other runs

Two runs of a machine are compared through a relation `R` of their states. `Act.Simulated bad R m m'`
says that from related states `m'` ends as `m` does, after the same output and again in related
states, unless `m` ends in a bad failure. What is noted on the way does not matter.

Doing one act after the other keeps this (`Simulated.bind`). So it is enough to look at the few acts
that a run is made of: pushing and popping, opening a unit, compiling a token, and looking a word up. A
relation that passes for these is a `Simulation`, and then whole runs are simulated: a token
(`Simulation.runToken`), tokens, the words of a text, a built-in word, and at last the execution of a
word under any limit on nested calls (`World.execute_simulated_between`, by induction on the limit), in one
world or in two.

The tokens of the two runs may differ as well, by a relation `T` that leaves open how a comment or a
declaration is spelt. The states need only agree on the names that a run can look up; which names these
are is a parameter, `named`, and where it is left out they are all names. An invariant of one run is the
special case of a relation below equality.
-/

namespace WordMachine

variable {Op α β : Type} {bad : Failure → Prop} {R : State Op → State Op → Prop}

/-- `p` ends as `o` does, after the same output and in a related state, unless `o` ends in a bad
failure. -/
def Outcome.Simulated (bad : Failure → Prop) (R : State Op → State Op → Prop) (o p : Outcome Op α) :
    Prop :=
  (∀ e, o.result = .error e → ¬ bad e) →
    p.result = o.result ∧ p.output = o.output ∧ R o.state p.state

namespace Act

/-- From related states `m'` does what `m` does. -/
def Simulated (bad : Failure → Prop) (R : State Op → State Op → Prop) (m m' : Act Op α) : Prop :=
  ∀ s r, R s r → (m s).Simulated bad R (m' r)

/-- Calls of the same name are simulated, if it is one of the names that are looked up. -/
def CallsSimulated (bad : Failure → Prop) (R : State Op → State Op → Prop) (call call' : Call Op)
    (named : Value → Prop := fun _ => True) : Prop :=
  ∀ t u : Token, named t.name → u.name = t.name → Simulated bad R (call t) (call' u)

namespace Simulated

theorem pure (a : α) : Simulated bad R (pure a : Act Op α) (pure a) :=
  fun _ _ h _ => ⟨rfl, rfl, h⟩

theorem fail (e : Failure) : Simulated bad R (Act.fail e : Act Op α) (Act.fail e) :=
  fun _ _ h _ => ⟨rfl, rfl, h⟩

theorem write (text : String) : Simulated bad R (Act.write text) (Act.write text) :=
  fun _ _ h _ => ⟨rfl, rfl, h⟩

theorem note (n n' : Note) : Simulated bad R (Act.note n) (Act.note n') :=
  fun _ _ h _ => ⟨rfl, rfl, h⟩

theorem modify {f g : State Op → State Op} (h : ∀ s r, R s r → R (f s) (g r)) :
    Simulated bad R (Act.modify f) (Act.modify g) :=
  fun s r hR _ => ⟨rfl, rfl, h s r hR⟩

theorem get_bind {f g : State Op → Act Op α}
    (h : ∀ s r, R s r → (f s s).Simulated bad R (g r r)) :
    Simulated bad R (get >>= f) (get >>= g) := by
  intro s r hR
  rw [get_bind_apply, get_bind_apply]
  exact h s r hR

theorem ofExcept (x : Except Failure α) :
    Simulated bad R (Act.ofExcept x : Act Op α) (Act.ofExcept x) := by
  cases x with
  | ok a => exact pure a
  | error e => exact fail e

theorem orFault (x : Except Fault α) :
    Simulated bad R (Act.orFault x : Act Op α) (Act.orFault x) := by
  cases x with
  | ok a => exact pure a
  | error f => exact fail _

theorem bind {m m' : Act Op α} {f f' : α → Act Op β} (hm : Simulated bad R m m')
    (hf : ∀ a, Simulated bad R (f a) (f' a)) : Simulated bad R (m >>= f) (m' >>= f') := by
  intro s r hR hgood
  -- the first act ends well, or its failure is the failure of both acts in a row
  cases hr : (m s).result with
  | ok a =>
    obtain ⟨hr', hout, hstate⟩ := hm s r hR fun e he => by rw [hr] at he; cases he
    rw [hr] at hr'
    rw [bind_apply_of_ok hr] at hgood ⊢
    rw [bind_apply_of_ok hr']
    obtain ⟨hres, houtput, hend⟩ := hf a (m s).state (m' r).state hstate hgood
    exact ⟨hres, by rw [hout, houtput], hend⟩
  | error e =>
    rw [bind_apply_of_error hr] at hgood ⊢
    obtain ⟨hr', hout, hstate⟩ := hm s r hR fun e' he => hgood e' (by rw [hr] at he; cases he; rfl)
    rw [hr] at hr'
    rw [bind_apply_of_error hr']
    exact ⟨rfl, hout, hstate⟩

end Simulated

end Act

/-! ## What a simulation has to keep -/

/-- A relation of tokens that leaves open at most how a comment or a declaration is spelt. Identifiers
have names that are looked up, and so has every text, because a program can compute one and call it. -/
structure TokensRelated (T : Token → Token → Prop) (named : Value → Prop := fun _ => True) :
    Prop where
  kind : ∀ {t u : Token}, T t u → u.kind = t.kind
  payload : ∀ {t u : Token}, T t u → t.kind ≠ .comment → t.kind ≠ .declaration →
    u.payload = t.payload
  classified : ∀ {raw : String} {t : Token}, Token.classify raw = .ok t → T t t
  identifier : ∀ {t u : Token}, T t u → t.kind = .identifier → named t.name
  text : ∀ name : String, named (.text name)

theorem tokensRelated_eq : TokensRelated (· = ·) where
  kind h := by rw [h]
  payload h _ _ := by rw [h]
  classified _ := rfl
  identifier _ _ := trivial
  text _ := trivial

/-- A relation `R` of states that is kept by the acts that runs are made of, if the tokens they run are
related by `T`. -/
structure Simulation (bad : Failure → Prop) (R : State Op → State Op → Prop)
    (T : Token → Token → Prop) (named : Value → Prop := fun _ => True) : Prop
    extends TokensRelated T named where
  depth : ∀ {s r : State Op}, R s r → r.depth = s.depth
  declarers : ∀ {s r : State Op} {name : Value}, R s r → named name →
    r.declarers.contains name = s.declarers.contains name
  enter : ∀ {s r : State Op}, R s r →
    R { s with depth := s.depth + 1 } { r with depth := r.depth + 1 }
  push : ∀ {s r : State Op} (vs : List Value), R s r →
    R { s with stack := vs ++ s.stack } { r with stack := vs ++ r.stack }
  pop : Act.Simulated bad R Act.pop Act.pop
  /-- Only while a unit is open are tokens compiled. -/
  compile : ∀ {s r : State Op} {t u : Token}, R s r → T t u → 0 < s.depth →
    (Act.compile t s).Simulated bad R (Act.compile u r)

theorem Token.isConstant_eq_of_kind_eq {t u : Token} (h : u.kind = t.kind) :
    u.isConstant = t.isConstant := by
  rw [isConstant, isConstant, h]

theorem Token.name_of_identifier {t : Token} (h : t.kind = .identifier) : t.name = t.payload := by
  simp [name, h]

theorem State.kind_of_called {s : State Op} {t : Token} (hc : ¬ t.isConstant = true)
    (hk : t.kind ≠ .comment) (hd : ¬ s.isDeclarer t = true) : t.kind = .identifier := by
  cases h : t.kind with
  | identifier => rfl
  | number => simp [Token.isConstant, h] at hc
  | literal => simp [Token.isConstant, h] at hc
  | comment => exact absurd h hk
  | declaration => simp [State.isDeclarer, h] at hd

namespace Simulation

variable {T : Token → Token → Prop} {named : Value → Prop} {call call' : Act.Call Op}

theorem pushOne (sim : Simulation bad R T named) (v : Value) :
    Act.Simulated bad R (Act.push v) (Act.push v) :=
  .modify fun _ _ hR => sim.push [v] hR

theorem isDeclarer_eq (sim : Simulation bad R T named) {s r : State Op} {t u : Token} (hR : R s r)
    (htu : T t u) (hc : t.kind ≠ .comment) : r.isDeclarer u = s.isDeclarer t := by
  have hk := sim.kind htu
  by_cases hd : t.kind = .declaration
  · simp [State.isDeclarer, hk, hd]
  · by_cases hi : t.kind = .identifier
    · have hname : u.name = t.name := by
        rw [Token.name_of_identifier hi, Token.name_of_identifier (hk.trans hi),
          sim.payload htu hc hd]
      rw [State.isDeclarer, State.isDeclarer, hk, hname,
        sim.declarers hR (sim.identifier htu hi)]
    · simp [State.isDeclarer, hk, hd, hi]

/-! ## Tokens and words -/

theorem obey (sim : Simulation bad R T named) (hcall : Act.CallsSimulated bad R call call' named) {t u : Token}
    (htu : T t u) : Act.Simulated bad R (Act.obey call t) (Act.obey call' u) := by
  have hk := sim.kind htu
  unfold Act.obey
  rw [Token.isConstant_eq_of_kind_eq hk, hk]
  by_cases hc : t.isConstant = true
  · have hpayload : u.payload = t.payload :=
      sim.payload htu (by rintro h; simp [Token.isConstant, h] at hc)
        (by rintro h; simp [Token.isConstant, h] at hc)
    rw [if_pos hc, if_pos hc, hpayload]
    exact sim.pushOne _
  · rw [if_neg hc, if_neg hc]
    by_cases hk' : t.kind = .comment
    · rw [if_pos hk', if_pos hk']
      exact .pure ()
    · rw [if_neg hk', if_neg hk']
      refine .get_bind fun s r hR => ?_
      rw [sim.isDeclarer_eq hR htu hk']
      by_cases hd : s.isDeclarer t = true
      · rw [if_pos hd, if_pos hd]
        exact Act.Simulated.bind (.modify fun _ _ h => sim.enter h) (fun _ => .note _ _) s r hR
      · rw [if_neg hd, if_neg hd]
        -- only identifiers are called, and the name of an identifier is its payload
        have hi := State.kind_of_called hc hk' hd
        refine hcall t u (sim.identifier htu hi) ?_ s r hR
        rw [Token.name_of_identifier hi, Token.name_of_identifier (hk.trans hi),
          sim.payload htu hk' (by rw [hi]; decide)]

theorem runToken (sim : Simulation bad R T named) (hcall : Act.CallsSimulated bad R call call' named)
    {t u : Token} (htu : T t u) :
    Act.Simulated bad R (Act.runToken call t) (Act.runToken call' u) := by
  unfold Act.runToken
  refine .get_bind fun s r hR => ?_
  rw [sim.depth hR]
  by_cases hd : 0 < s.depth
  · rw [if_pos hd, if_pos hd]
    exact sim.compile hR htu hd
  · rw [if_neg hd, if_neg hd]
    exact sim.obey hcall htu s r hR

theorem interpret (sim : Simulation bad R T named) (hcall : Act.CallsSimulated bad R call call' named)
    {ts : List Token} (h : ∀ t ∈ ts, T t t) :
    Act.Simulated bad R (Act.interpret call ts) (Act.interpret call' ts) := by
  induction ts with
  | nil => exact .pure ()
  | cons t ts ih =>
    exact .bind (sim.runToken hcall (h t (by simp))) fun _ => ih fun u hu => h u (by simp [hu])

theorem runWords (sim : Simulation bad R T named) (hcall : Act.CallsSimulated bad R call call' named)
    (ws : List Word) : Act.Simulated bad R (Act.runWords call ws) (Act.runWords call' ws) := by
  induction ws with
  | nil => exact .pure ()
  | cons w ws ih =>
    rw [Act.runWords, Act.runWords]
    cases hw : Token.classify w.text with
    | error f => exact .fail (.fault f)
    | ok t =>
      rw [Act.orFault, pure_bind, pure_bind]
      exact .bind (sim.runToken hcall (sim.classified hw)) fun _ => ih

/-! ## Functions of the stack and built-in words -/

theorem applyTop (sim : Simulation bad R T named) (n : Nat) (f : StackFunction n) :
    Act.Simulated bad R (Act.applyTop n f) (Act.applyTop n f) := by
  induction n with
  | zero => exact .ofExcept _
  | succ n ih => exact .bind sim.pop fun v => ih (f v)

theorem method (sim : Simulation bad R T named) (m : StackMethod) :
    Act.Simulated bad R (Act.method m) (Act.method m) := by
  refine .bind (sim.applyTop m.arity m.function) fun reply => ?_
  cases reply with
  | nothing => exact .pure ()
  | each values => exact .modify fun _ _ hR => sim.push values.reverse hR
  | one value => exact sim.pushOne value

end Simulation

/-- Whether a built-in word depends on how much lies on the stack, and not only on its top. -/
def Builtin.seesBottom : Builtin → Bool
  | depth => true
  | copyBottom => true
  | negateBottom => true
  | _ => false

namespace Simulation

variable {T : Token → Token → Prop} {named : Value → Prop} {call call' : Act.Call Op}

theorem popString (sim : Simulation bad R T named) :
    Act.Simulated bad R (Builtin.popString : Act Op String) Builtin.popString :=
  .bind sim.pop fun _ => .ofExcept _

theorem builtin (sim : Simulation bad R T named) (hcall : Act.CallsSimulated bad R call call' named)
    (files : Files) {b : Builtin} (hb : b.seesBottom = false) :
    Act.Simulated bad R (b.execute files call) (b.execute files call') := by
  cases b with
  | write => exact .bind sim.pop fun v => .bind (.orFault _) fun text => .write text
  | newline => exact .write _
  | perform => exact .bind sim.popString fun name => hcall _ _ (sim.text name) rfl
  | depth => cases hb
  | copyBottom => cases hb
  | negateBottom => cases hb
  | load encoding =>
    exact .bind sim.popString fun path => .bind (.note _ _) fun _ => .bind (.ofExcept _) fun text =>
      sim.runWords hcall _
  | join => exact sim.method _
  | isZero => exact sim.method _
  | add => exact sim.method _

end Simulation

/-! ## Relations of equal stacks -/

/-- Related states have the same stack, and with any other stack they stay related. -/
structure SameStack (R : State Op → State Op → Prop) : Prop where
  stack : ∀ {s r : State Op}, R s r → r.stack = s.stack
  restack : ∀ {s r : State Op} (vs : List Value), R s r →
    R { s with stack := vs } { r with stack := vs }

namespace SameStack

theorem push (same : SameStack R) {s r : State Op} (vs : List Value) (hR : R s r) :
    R { s with stack := vs ++ s.stack } { r with stack := vs ++ r.stack } := by
  rw [same.stack hR]
  exact same.restack _ hR

theorem pop (same : SameStack R) : Act.Simulated bad R Act.pop Act.pop := by
  intro s r hR
  cases hs : s.stack with
  | nil =>
    rw [Act.pop_apply_of_nil hs, Act.pop_apply_of_nil ((same.stack hR).trans hs)]
    exact fun _ => ⟨rfl, rfl, hR⟩
  | cons v vs =>
    rw [Act.pop_apply_of_cons hs, Act.pop_apply_of_cons ((same.stack hR).trans hs)]
    exact fun _ => ⟨rfl, rfl, same.restack vs hR⟩

/-- Tokens that want a top find it on both sides or on neither. -/
theorem compile (same : SameStack R) {s r : State Op} {t u : Token} (hR : R s r)
    (hwants : u.wantsTop = t.wantsTop) (hcompiled : R (s.compiled t) (r.compiled u)) :
    (Act.compile t s).Simulated bad R (Act.compile u r) := by
  intro _
  by_cases hfails : t.wantsTop = true ∧ s.stack = []
  · rw [Act.compile_apply_of_nil hfails.1 hfails.2,
      Act.compile_apply_of_nil (hwants.trans hfails.1) ((same.stack hR).trans hfails.2)]
    exact ⟨rfl, rfl, hR⟩
  · have htop : t.wantsTop = true → s.stack ≠ [] := fun hw hs => hfails ⟨hw, hs⟩
    rw [Act.compile_apply htop, Act.compile_apply (by rwa [hwants, same.stack hR])]
    exact ⟨rfl, rfl, hcompiled⟩

theorem bottom (same : SameStack R) :
    Act.Simulated bad R (Builtin.bottom : Act Op Value) Builtin.bottom := by
  refine .get_bind fun s r hR => ?_
  rw [same.stack hR]
  cases s.stack.getLast? with
  | none => exact Act.Simulated.fail _ s r hR
  | some v => exact Act.Simulated.pure v s r hR

theorem builtin {T : Token → Token → Prop} {named : Value → Prop} {call call' : Act.Call Op}
    (same : SameStack R) (sim : Simulation bad R T named)
    (hcall : Act.CallsSimulated bad R call call' named) (files : Files) (b : Builtin) :
    Act.Simulated bad R (b.execute files call) (b.execute files call') := by
  cases b with
  | depth =>
    refine .get_bind fun s r hR => ?_
    rw [same.stack hR]
    exact sim.pushOne _ s r hR
  | copyBottom => exact .bind same.bottom fun v => sim.pushOne v
  | negateBottom =>
    refine .bind same.bottom fun v => .bind (.ofExcept _) fun n => .modify fun s r hR => ?_
    rw [same.stack hR]
    exact same.restack _ hR
  | _ => exact sim.builtin hcall files rfl

end SameStack

/-! ## Executing a word -/

/-- Under a name related states hold nothing or related definitions. -/
def DefinitionsRelated (D : Definition Op → Definition Op → Prop) (s r : State Op) (name : Value) :
    Prop :=
  (s.dictionary[name]? = none ∧ r.dictionary[name]? = none) ∨
    ∃ d d', s.dictionary[name]? = some d ∧ r.dictionary[name]? = some d' ∧ D d d'

theorem DefinitionsRelated.of_dictionary_eq {D : Definition Op → Definition Op → Prop}
    {s r : State Op} (h : r.dictionary = s.dictionary) {name : Value}
    (hD : ∀ d, s.dictionary[name]? = some d → D d d) : DefinitionsRelated D s r name := by
  unfold DefinitionsRelated
  rw [h]
  cases hname : s.dictionary[name]? with
  | none => exact .inl ⟨rfl, rfl⟩
  | some d => exact .inr ⟨d, d, rfl, rfl, hD d hname⟩

/-- Related states that are given related definitions of one name stay related. -/
theorem DefinitionsRelated.insert {D : Definition Op → Definition Op → Prop} {s r : State Op}
    {other : Value} (h : DefinitionsRelated D s r other) (name : Value) {d d' : Definition Op}
    (hd : D d d') :
    DefinitionsRelated D { s with dictionary := s.dictionary.insert name d }
      { r with dictionary := r.dictionary.insert name d' } other := by
  unfold DefinitionsRelated
  simp only [Std.ExtTreeMap.getElem?_insert]
  by_cases hname : compare name other = .eq
  · simp only [hname, if_true]
    exact .inr ⟨_, _, rfl, rfl, hd⟩
  · simp only [hname, if_false]
    exact h

/-- If related states hold related definitions under the names that are looked up, and related definitions
do the same in two worlds, then executing words in the one is simulated by executing them in the
other. -/
theorem World.execute_simulated_between (w w' : World Op) {D : Definition Op → Definition Op → Prop}
    {named : Value → Prop}
    (hlookup : ∀ {s r : State Op}, R s r → ∀ name, named name → DefinitionsRelated D s r name)
    (hperform : ∀ {call call' : Act.Call Op}, Act.CallsSimulated bad R call call' named →
      ∀ {d d' : Definition Op}, D d d' →
        Act.Simulated bad R (w.perform call d) (w'.perform call' d'))
    (limit : Nat) : Act.CallsSimulated bad R (w.execute limit) (w'.execute limit) named := by
  induction limit with
  | zero =>
    intro t u hnamed htu s r hR
    rcases hlookup hR t.name hnamed with ⟨hs, hr⟩ | ⟨d, d', hs, hr, -⟩
    · rw [execute_apply_of_none hs, execute_apply_of_none (htu ▸ hr), htu]
      exact Act.Simulated.bind (.orFault _) (fun _ => .fail _) s r hR
    · rw [execute_zero_apply hs, execute_zero_apply (htu ▸ hr), Act.exceed, Act.exceed, htu]
      exact Act.Simulated.bind (.orFault _) (fun _ => .fail _) s r hR
  | succ limit ih =>
    intro t u hnamed htu s r hR
    rcases hlookup hR t.name hnamed with ⟨hs, hr⟩ | ⟨d, d', hs, hr, hd⟩
    · rw [execute_apply_of_none hs, execute_apply_of_none (htu ▸ hr), htu]
      exact Act.Simulated.bind (.orFault _) (fun _ => .fail _) s r hR
    · rw [execute_succ_apply hs, execute_succ_apply (htu ▸ hr)]
      exact hperform ih hd s r hR

theorem World.execute_simulated (w : World Op) {D : Definition Op → Definition Op → Prop}
    {named : Value → Prop}
    (hlookup : ∀ {s r : State Op}, R s r → ∀ name, named name → DefinitionsRelated D s r name)
    (hperform : ∀ {call call' : Act.Call Op}, Act.CallsSimulated bad R call call' named →
      ∀ {d d' : Definition Op}, D d d' →
        Act.Simulated bad R (w.perform call d) (w.perform call' d'))
    (limit : Nat) : Act.CallsSimulated bad R (w.execute limit) (w.execute limit) named :=
  w.execute_simulated_between w hlookup hperform limit

end WordMachine
