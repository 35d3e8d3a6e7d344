import Mathlib.Data.List.Chain
import Mathlib.Data.List.Nodup
import Mathlib.Data.Nat.SuccPred
import Mathlib.Logic.Relation
import WordMachine.Proofs.Block
import WordMachine.Proofs.CallDepth
import WordMachine.Proofs.Policy

/-!
# Words that call each other

A family of words is a set of compiled words that push constants, call each other, and otherwise call
only words that do not exist and built-in words that call none. While such a word is executed, nothing
changes but the stack (`World.confined_execute`); so the dictionary at the start says for the whole run
which word calls which, and that is a relation `State.Calls` on the family.

How deep the calls are nested is then settled by this relation alone.

* If no cycle can be reached from a word, its chains of calls have pairwise distinct words, and there is a
  longest one. Room for as many calls as it has words, and for one built-in word behind them, is enough:
  the word stays within that limit, by induction on the limit (`World.execute_within`).
* A word that ends normally has executed all its tokens, so every word it calls has ended normally under
  a limit that is lower by one (`World.EndsUnder.of_calls`). Along a cycle of calls the limit would fall
  without end.
-/

namespace WordMachine

variable {Op α β : Type}

/-- Whether a built-in word calls others: by a name on the stack, or as a text that it runs. -/
def Builtin.callsWords : Builtin → Bool
  | perform => true
  | load _ => true
  | _ => false

/-- Whether a failure says that a call was beyond the limit. -/
def Failure.Exceeds : Failure → Prop
  | .error (.callDepthExceeded _) => True
  | _ => False

namespace State

variable (s : State Op) (P : Set String)

/-- The state with another stack. -/
def withStack (vs : List Value) : State Op :=
  { s with stack := vs }

/-- A name that the family `P` may call: a word of the family, no word at all, or a built-in word that
calls none. -/
def MayCall (name : Value) : Prop :=
  (∃ q ∈ P, name = .text q) ∨ s.dictionary[name]? = none ∨
    ∃ b, s.dictionary[name]? = some (.builtin b) ∧ b.callsWords = false

/-- A token that a word of the family `P` may be made of: a constant, a comment, or an identifier that is
no declarer and that the family may call. -/
structure Admits (t : Token) : Prop where
  kind : t.kind ≠ .declaration
  plain : t.kind = .identifier → t.name ∉ s.declarers
  call : t.kind = .identifier → s.MayCall P t.name

/-- Compiled words that call nothing but each other and what calls no further. -/
def Family : Prop :=
  ∀ p ∈ P, ∃ tokens, s.dictionary[Value.text p]? = some (.procedure tokens) ∧
    ∀ t ∈ tokens, s.Admits P t

/-- The word `p` calls the word `q` of the family. -/
def Calls (p q : String) : Prop :=
  q ∈ P ∧ ∃ tokens, s.dictionary[Value.text p]? = some (.procedure tokens) ∧
    ∃ t ∈ tokens, t.kind = .identifier ∧ t.name = .text q

/-- From the word `p`, calls lead to a word that calls itself, at once or through others. -/
def ReachesCycle (p : String) : Prop :=
  ∃ q, Relation.ReflTransGen (s.Calls P) p q ∧ Relation.TransGen (s.Calls P) q q

/-- How many words a chain of calls that starts with `p` may have. -/
def chainLengths (p : String) : Set Nat :=
  {n | ∃ chain, (p :: chain).IsChain (s.Calls P) ∧ n = chain.length + 1}

end State

/-! ## Acts that touch nothing but the stack -/

namespace Act

/-- From `s` with any stack, `m'` does what `m` does, nothing changes but the stack, and the end is not a
bad failure. -/
def Confined (bad : Failure → Prop) (s : State Op) (m m' : Act Op α) : Prop :=
  ∀ vs, m' (s.withStack vs) = m (s.withStack vs) ∧
    (∃ us, (m (s.withStack vs)).state = s.withStack us) ∧
    ∀ e, (m (s.withStack vs)).result = .error e → ¬ bad e

namespace Confined

variable {bad : Failure → Prop} {s : State Op}

theorem pure (a : α) : Confined bad s (pure a : Act Op α) (pure a) :=
  fun vs => ⟨rfl, ⟨vs, rfl⟩, nofun⟩

theorem fail {e : Failure} (h : ¬ bad e) : Confined bad s (Act.fail e : Act Op α) (Act.fail e) := by
  refine fun vs => ⟨rfl, ⟨vs, rfl⟩, ?_⟩
  rintro f ⟨⟩
  exact h

theorem write (text : String) : Confined bad s (Act.write text) (Act.write text) :=
  fun vs => ⟨rfl, ⟨vs, rfl⟩, nofun⟩

/-- A change of the stack. -/
theorem modify {f : State Op → State Op} (h : ∀ vs, ∃ us, f (s.withStack vs) = s.withStack us) :
    Confined bad s (Act.modify f) (Act.modify f) :=
  fun vs => ⟨rfl, h vs, nofun⟩

theorem push (v : Value) : Confined bad s (Act.push v) (Act.push v) :=
  .modify fun vs => ⟨v :: vs, rfl⟩

theorem get_bind {f f' : State Op → Act Op α}
    (h : ∀ vs, Confined bad s (f (s.withStack vs)) (f' (s.withStack vs))) :
    Confined bad s (get >>= f) (get >>= f') := by
  intro vs
  rw [get_bind_apply, get_bind_apply]
  exact h vs vs

theorem bind {m m' : Act Op α} {f f' : α → Act Op β} (hm : Confined bad s m m')
    (hf : ∀ a, Confined bad s (f a) (f' a)) : Confined bad s (m >>= f) (m' >>= f') := by
  intro vs
  obtain ⟨hsame, ⟨us, hstate⟩, hgood⟩ := hm vs
  rw [bind_apply_congr hsame]
  cases hr : (m (s.withStack vs)).result with
  | ok a =>
    obtain ⟨hsame', hstate', hgood'⟩ := hf a us
    rw [bind_apply_of_ok hr, bind_apply_of_ok hr, hstate, hsame']
    exact ⟨rfl, hstate', hgood'⟩
  | error e =>
    rw [bind_apply_of_error hr, bind_apply_of_error hr]
    refine ⟨rfl, ⟨us, hstate⟩, ?_⟩
    rintro f ⟨⟩
    exact hgood e hr

theorem ofExcept {Q : α → Prop} {x : Except Failure α} (h : Ends (¬ bad ·) Q x) :
    Confined bad s (Act.ofExcept x : Act Op α) (Act.ofExcept x) := by
  cases x with
  | ok a => exact .pure a
  | error e => exact .fail h

theorem orFault {x : Except Fault α} (h : ∀ f, ¬ bad (.fault f)) :
    Confined bad s (Act.orFault x : Act Op α) (Act.orFault x) := by
  cases x with
  | ok a => exact .pure a
  | error f => exact .fail (h f)

theorem pop (h : ¬ bad (.error .emptyStack)) : Confined bad s (Act.pop : Act Op Value) Act.pop := by
  refine .get_bind fun vs => ?_
  cases vs with
  | nil => exact .fail h
  | cons v vs => exact .bind (.modify fun _ => ⟨vs, rfl⟩) fun _ => .pure v

/-- Fewer failures are bad. -/
theorem mono {bad' : Failure → Prop} {m m' : Act Op α} (h : Confined bad s m m')
    (hbad : ∀ e, bad' e → bad e) : Confined bad' s m m' := fun vs =>
  ⟨(h vs).1, (h vs).2.1, fun e he hbad' => (h vs).2.2 e he (hbad e hbad')⟩

end Confined

end Act

/-! ## Built-in words that call none -/

/-- No failure of a function of the stack is bad. -/
def StackFunction.NeverBad (bad : Failure → Prop) : (n : Nat) → StackFunction n → Prop
  | 0, reply => Ends (¬ bad ·) (fun _ => True) reply
  | n + 1, f => ∀ v : Value, NeverBad bad n (f v)

theorem Act.confined_method {bad : Failure → Prop} {s : State Op} (hempty : ¬ bad (.error .emptyStack))
    {m : StackMethod} (h : StackFunction.NeverBad bad m.arity m.function) :
    Confined bad s (method m : Act Op Unit) (method m) := by
  obtain ⟨n, f⟩ := m
  refine .bind (m := applyTop n f) ?_ fun reply => ?_
  · induction n with
    | zero => exact .ofExcept h
    | succ n ih => exact .bind (.pop hempty) fun v => ih (f v) (h v)
  · cases reply with
    | nothing => exact .pure ()
    | each values => exact .modify fun vs => ⟨_, rfl⟩
    | one value => exact .push value

theorem Value.ends_integer (v : Value) : Ends (¬ Failure.Exceeds ·) (fun _ => True) v.integer := by
  cases v with
  | int n => exact trivial
  | text t => exact id

namespace Builtin

variable {s : State Op}

theorem confined_bottom : Act.Confined Failure.Exceeds s (bottom : Act Op Value) bottom := by
  refine .get_bind fun vs => ?_
  cases (s.withStack vs).stack.getLast? with
  | none => exact .fail id
  | some v => exact .pure v

theorem neverBad_join : StackFunction.NeverBad Failure.Exceeds 2 joinMethod.function := by
  intro top lower
  simp only [joinMethod, StackFunction.NeverBad]
  cases joined top lower with
  | ok t => exact trivial
  | error f => exact id

theorem neverBad_isZero : StackFunction.NeverBad Failure.Exceeds 1 isZeroMethod.function :=
  fun top => top.ends_integer.bind fun _ _ => trivial

theorem neverBad_add : StackFunction.NeverBad Failure.Exceeds 2 addMethod.function :=
  fun top lower => lower.ends_integer.bind fun _ _ => top.ends_integer.bind fun _ _ => trivial

/-- A built-in word that calls none does the same whatever calls would do. -/
theorem confined_execute (files : Files) (call call' : Act.Call Op) {b : Builtin}
    (hb : b.callsWords = false) :
    Act.Confined Failure.Exceeds s (b.execute files call) (b.execute files call') := by
  cases b with
  | write => exact .bind (.pop id) fun v => .bind (.orFault fun _ => id) fun text => .write text
  | newline => exact .write _
  | perform => cases hb
  | depth => exact .get_bind fun vs => .push _
  | copyBottom => exact .bind confined_bottom fun v => .push v
  | negateBottom =>
    exact .bind confined_bottom fun v => .bind (.ofExcept v.ends_integer) fun n =>
      .modify fun vs => ⟨_, rfl⟩
  | load encoding => cases hb
  | join => exact Act.confined_method id neverBad_join
  | isZero => exact Act.confined_method id neverBad_isZero
  | add => exact Act.confined_method id neverBad_add

end Builtin

/-! ## Tokens -/

namespace Act

variable {bad : Failure → Prop} {s : State Op} {P : Set String} {call call' : Call Op} {t : Token}

/-- Outside a unit an identifier that is no declarer is called. -/
theorem runToken_of_identifier (hd : s.depth = 0) (hk : t.kind = .identifier) (hn : t.name ∉ s.declarers)
    (vs : List Value) : runToken call t (s.withStack vs) = call t (s.withStack vs) := by
  have hplain : ¬ (s.withStack vs).isDeclarer t = true := by
    simpa [State.isDeclarer, State.withStack, hk] using hn
  rw [runToken_of_executing (s := s.withStack vs) hd, obey, if_neg (by simp [Token.isConstant, hk]),
    if_neg (by simp [hk]), get_bind_apply, if_neg hplain]

/-- A token that the family admits is as confined as the call it makes. -/
theorem confined_runToken (hd : s.depth = 0) (ht : s.Admits P t)
    (hcall : t.kind = .identifier → Confined bad s (call t) (call' t)) :
    Confined bad s (runToken call t) (runToken call' t) := by
  intro vs
  by_cases hk : t.kind = .identifier
  · rw [runToken_of_identifier hd hk (ht.plain hk), runToken_of_identifier hd hk (ht.plain hk)]
    exact hcall hk vs
  · rw [runToken_of_executing (s := s.withStack vs) hd, runToken_of_executing (s := s.withStack vs) hd]
    unfold obey
    by_cases hc : t.isConstant = true
    · rw [if_pos hc, if_pos hc]
      exact Confined.push _ vs
    · have hcomment : t.kind = .comment := by
        cases h : t.kind <;> simp_all [Token.isConstant, ht.kind]
      rw [if_neg hc, if_neg hc, if_pos hcomment, if_pos hcomment]
      exact Confined.pure () vs

theorem confined_interpret (hd : s.depth = 0) {ts : List Token} (hts : ∀ t ∈ ts, s.Admits P t)
    (hcall : ∀ t ∈ ts, t.kind = .identifier → Confined bad s (call t) (call' t)) :
    Confined bad s (interpret call ts) (interpret call' ts) := by
  induction ts with
  | nil => exact .pure ()
  | cons t ts ih =>
    refine .bind (confined_runToken hd (hts t (by simp)) (hcall t (by simp))) fun _ => ?_
    exact ih (fun u hu => hts u (by simp [hu])) fun u hu => hcall u (by simp [hu])

/-- Tokens that end normally have made all their calls, and each of them has ended normally. -/
theorem exists_call_of_interpret_ok (hd : s.depth = 0) {ts : List Token}
    (hts : ∀ t ∈ ts, s.Admits P t)
    (hcall : ∀ t ∈ ts, t.kind = .identifier → Confined bad s (call t) (call t)) {vs : List Value}
    (hok : (interpret call ts (s.withStack vs)).result = .ok ()) (ht : t ∈ ts)
    (hk : t.kind = .identifier) : ∃ us, (call t (s.withStack us)).result = .ok () := by
  induction ts generalizing vs with
  | nil => cases ht
  | cons u ts ih =>
    have hu := hts u (by simp)
    -- the first token has ended normally, and what follows started from another stack
    have hfirst : (runToken call u (s.withStack vs)).result = .ok () := by
      cases hr : (runToken call u (s.withStack vs)).result with
      | ok a => rfl
      | error e =>
        rw [interpret, bind_apply_of_error hr] at hok
        cases hok
    obtain ⟨-, ⟨us, hstate⟩, -⟩ := confined_runToken hd hu (hcall u (by simp)) vs
    rw [interpret, bind_apply_of_ok hfirst, hstate] at hok
    rcases List.mem_cons.mp ht with rfl | hlater
    · rw [runToken_of_identifier hd hk (hu.plain hk)] at hfirst
      exact ⟨vs, hfirst⟩
    · exact ih (fun u hu => hts u (by simp [hu])) (fun u hu => hcall u (by simp [hu])) hok hlater

end Act

/-! ## Executing a word of the family -/

/-- What the family may call is no word, a built-in word that calls none, or a word of the family. -/
theorem State.Family.lookup {s : State Op} {P : Set String} (hP : s.Family P) {name : Value}
    (h : s.MayCall P name) :
    s.dictionary[name]? = none ∨
      (∃ b, s.dictionary[name]? = some (.builtin b) ∧ b.callsWords = false) ∨
      ∃ p ∈ P, name = .text p ∧ ∃ tokens, s.dictionary[name]? = some (.procedure tokens) ∧
        ∀ t ∈ tokens, s.Admits P t := by
  rcases h with ⟨p, hp, rfl⟩ | hnone | hbuiltin
  · exact .inr (.inr ⟨p, hp, rfl, hP p hp⟩)
  · exact .inl hnone
  · exact .inr (.inl hbuiltin)

namespace World

variable {w : World Op} {s : State Op} {P : Set String} {bad : Failure → Prop}

theorem confined_execute_of_none {t : Token} (h : s.dictionary[t.name]? = none)
    (hbad : ∀ e, bad e → e.Exceeds) (beyond : Act.Call Op) (limit : Nat) :
    Act.Confined bad s (w.execute limit t) (w.executeBeyond beyond limit t) := by
  intro vs
  rw [execute_apply_of_none (s := s.withStack vs) h, executeBeyond_apply_of_none (s := s.withStack vs) h]
  refine Act.Confined.bind (.orFault fun f he => hbad (.fault f) he) (fun name => ?_) vs
  exact .fail fun he => hbad (.error (.unknownName name)) he

/-- A word is as confined as the calls it makes. -/
theorem confined_execute_succ (hd : s.depth = 0) (hP : s.Family P) (hbad : ∀ e, bad e → e.Exceeds)
    {beyond : Act.Call Op} {limit : Nat} {t : Token} (ht : s.MayCall P t.name)
    (hcalls : ∀ p ∈ P, t.name = .text p → ∀ u : Token, s.MayCall P u.name →
      (∀ q ∈ P, u.name = .text q → s.Calls P p q) →
      Act.Confined bad s (w.execute limit u) (w.executeBeyond beyond limit u)) :
    Act.Confined bad s (w.execute (limit + 1) t) (w.executeBeyond beyond (limit + 1) t) := by
  rcases hP.lookup ht with hnone | ⟨b, hlookup, hb⟩ | ⟨p, hp, hname, tokens, hlookup, htokens⟩
  · exact confined_execute_of_none hnone hbad beyond (limit + 1)
  · intro vs
    rw [execute_succ_apply (s := s.withStack vs) hlookup,
      executeBeyond_succ_apply (s := s.withStack vs) hlookup]
    exact ((Builtin.confined_execute w.files _ _ hb).mono hbad) vs
  · intro vs
    rw [execute_succ_apply (s := s.withStack vs) hlookup,
      executeBeyond_succ_apply (s := s.withStack vs) hlookup]
    refine Act.confined_interpret hd htokens (fun u hu hk => ?_) vs
    refine hcalls p hp hname u ((htokens u hu).call hk) fun q hq huq => ?_
    exact ⟨hq, tokens, hname ▸ hlookup, u, hu, hk, huq⟩

/-- Nothing that the family calls changes more than the stack, under any limit. -/
theorem confined_execute (hd : s.depth = 0) (hP : s.Family P) (limit : Nat) {t : Token}
    (ht : s.MayCall P t.name) :
    Act.Confined (fun _ => False) s (w.execute limit t) (w.execute limit t) := by
  induction limit generalizing t with
  | zero =>
    intro vs
    cases hlookup : s.dictionary[t.name]? with
    | none =>
      rw [execute_apply_of_none (s := s.withStack vs) hlookup]
      exact Act.Confined.bind (.orFault fun _ => id) (fun _ => .fail id) vs
    | some d =>
      rw [execute_zero_apply (s := s.withStack vs) hlookup]
      exact Act.Confined.bind (.orFault fun _ => id) (fun _ => .fail id) vs
  | succ limit ih =>
    have hcalls : ∀ u : Token, s.MayCall P u.name →
        Act.Confined (fun _ => False) s (w.execute limit u) (w.executeBeyond Act.exceed limit u) := by
      rw [← execute_eq_executeBeyond]
      exact fun u hu => ih hu
    have hstep := confined_execute_succ hd hP (fun _ => False.elim) ht fun _ _ _ u hu _ => hcalls u hu
    rwa [← execute_eq_executeBeyond] at hstep

end World

/-! ## Chains of calls -/

namespace State

variable {s : State Op} {P : Set String} {p q : String}

theorem one_mem_chainLengths (s : State Op) (P : Set String) (p : String) :
    1 ∈ s.chainLengths P p :=
  ⟨[], .singleton p, rfl⟩

theorem succ_mem_chainLengths (h : s.Calls P p q) {n : Nat} (hn : n ∈ s.chainLengths P q) :
    n + 1 ∈ s.chainLengths P p := by
  obtain ⟨chain, hchain, rfl⟩ := hn
  exact ⟨q :: chain, hchain.cons_cons h, rfl⟩

/-- Without a cycle no word comes twice in a chain of calls. -/
theorem nodup_of_isChain (h : ¬ s.ReachesCycle P p) {chain : List String}
    (hchain : (p :: chain).IsChain (s.Calls P)) : (p :: chain).Nodup := by
  have hpairs : (p :: chain).Pairwise (Relation.TransGen (s.Calls P)) :=
    List.isChain_iff_pairwise.mp (hchain.imp fun _ _ => .single)
  refine hpairs.imp_of_mem fun {a b} ha _ hab => ?_
  rintro rfl
  refine h ⟨a, ?_, hab⟩
  rcases List.mem_cons.mp ha with rfl | hlater
  · exact .refl
  · exact ((List.pairwise_cons.mp hpairs).1 a hlater).to_reflTransGen

/-- The words of a chain of calls are in the dictionary. -/
theorem Family.mem_keys_of_isChain (hP : s.Family P) (hp : p ∈ P) {chain : List String}
    (hchain : (p :: chain).IsChain (s.Calls P)) :
    ∀ q ∈ p :: chain, Value.text q ∈ s.dictionary.keys := by
  have hmem : ∀ q ∈ p :: chain, q ∈ P :=
    hchain.induction (· ∈ P) (p :: chain) (fun _ _ h _ => h.1) fun _ => hp
  intro q hq
  obtain ⟨tokens, hlookup, -⟩ := hP q (hmem q hq)
  rw [Std.ExtTreeMap.mem_keys, Std.ExtTreeMap.mem_iff_isSome_getElem?, hlookup]
  rfl

/-- Without a cycle there is a longest chain of calls, since the dictionary is finite. -/
theorem Family.exists_longest (hP : s.Family P) (hp : p ∈ P) (h : ¬ s.ReachesCycle P p) :
    ∃ n, IsGreatest (s.chainLengths P p) n := by
  refine BddAbove.exists_isGreatest_of_nonempty ⟨s.dictionary.keys.length, ?_⟩
    ⟨1, one_mem_chainLengths s P p⟩
  rintro n ⟨chain, hchain, rfl⟩
  have hnodup : ((p :: chain).map Value.text).Nodup :=
    List.Nodup.map (fun _ _ => Value.text.inj) (nodup_of_isChain h hchain)
  have hsubset : (p :: chain).map Value.text ⊆ s.dictionary.keys := by
    intro v hv
    obtain ⟨q, hq, rfl⟩ := List.mem_map.mp hv
    exact hP.mem_keys_of_isChain hp hchain q hq
  simpa using hnodup.length_le_of_subset hsubset

end State

namespace World

variable {w : World Op} {s : State Op} {P : Set String}

/-! ## Without a cycle -/

/-- Room under a limit: for the words of every chain of calls and a built-in word behind them. -/
structure HasRoom (s : State Op) (P : Set String) (limit : Nat) (name : Value) : Prop where
  chains : ∀ p ∈ P, name = .text p → ∀ n ∈ s.chainLengths P p, n + 1 ≤ limit
  word : s.dictionary[name]? ≠ none → 1 ≤ limit

/-- With room for it, what the family calls makes no call beyond the limit. -/
theorem execute_within (hd : s.depth = 0) (hP : s.Family P) (beyond : Act.Call Op) (limit : Nat)
    {t : Token} (ht : s.MayCall P t.name) (hroom : HasRoom s P limit t.name) :
    Act.Confined Failure.Exceeds s (w.execute limit t) (w.executeBeyond beyond limit t) := by
  induction limit generalizing t with
  | zero =>
    have hnone : s.dictionary[t.name]? = none := by
      by_contra hsome
      exact absurd (hroom.word hsome) (by omega)
    exact confined_execute_of_none hnone (fun _ => id) beyond 0
  | succ limit ih =>
    refine confined_execute_succ hd hP (fun _ => id) ht fun p hp hname u hu hcalled => ih hu ⟨?_, ?_⟩
    · intro q hq huq n hn
      have := hroom.chains p hp hname (n + 1) (State.succ_mem_chainLengths (hcalled q hq huq) hn)
      omega
    · intro _
      have := hroom.chains p hp hname 1 (State.one_mem_chainLengths s P p)
      omega

/-! ## Along a cycle -/

/-- The word `p` of the family ends normally under the limit, from some stack. -/
structure EndsUnder (w : World Op) (s : State Op) (P : Set String) (limit : Nat) (p : String) : Prop where
  mem : p ∈ P
  ends : ∃ (t : Token) (vs : List Value), t.name = .text p ∧
    (w.execute limit t (s.withStack vs)).result = .ok ()

/-- A word that ends normally has called words that end normally, with less room. -/
theorem EndsUnder.of_calls (hd : s.depth = 0) (hP : s.Family P) {limit : Nat} {p q : String}
    (h : EndsUnder w s P limit p) (hcalls : s.Calls P p q) :
    ∃ limit' < limit, EndsUnder w s P limit' q := by
  obtain ⟨hp, t, vs, hname, hok⟩ := h
  obtain ⟨hq, tokens, hlookup, u, hu, hk, huq⟩ := hcalls
  obtain ⟨tokens', hlookup', hadmits⟩ := hP p hp
  obtain rfl : tokens' = tokens := by
    rw [hlookup] at hlookup'
    cases hlookup'
    rfl
  rw [← hname] at hlookup
  cases limit with
  | zero =>
    obtain ⟨e, he, -⟩ := Act.exists_mayExceed t (s.withStack vs)
    rw [execute_zero_apply (s := s.withStack vs) hlookup, he] at hok
    cases hok
  | succ limit =>
    rw [execute_succ_apply (s := s.withStack vs) hlookup] at hok
    have hcall : ∀ u ∈ tokens', u.kind = .identifier →
        Act.Confined (fun _ => False) s (w.execute limit u) (w.execute limit u) :=
      fun u hu hk => confined_execute hd hP limit ((hadmits u hu).call hk)
    obtain ⟨us, hus⟩ := Act.exists_call_of_interpret_ok hd hadmits hcall hok hu hk
    exact ⟨limit, Nat.lt_succ_self limit, hq, u, us, huq, hus⟩

theorem EndsUnder.of_transGen (hd : s.depth = 0) (hP : s.Family P) {limit : Nat} {p q : String}
    (h : EndsUnder w s P limit p) (hcalls : Relation.TransGen (s.Calls P) p q) :
    ∃ limit' < limit, EndsUnder w s P limit' q := by
  induction hcalls with
  | single hcall => exact h.of_calls hd hP hcall
  | tail _ hcall ih =>
    obtain ⟨limit', hlt, hmiddle⟩ := ih
    obtain ⟨limit'', hlt', hlast⟩ := hmiddle.of_calls hd hP hcall
    exact ⟨limit'', hlt'.trans hlt, hlast⟩

/-- A word that calls itself, at once or through others, never ends normally: it would do so under lower
and lower limits. -/
theorem not_endsUnder_of_cycle (hd : s.depth = 0) (hP : s.Family P) {q : String}
    (hcycle : Relation.TransGen (s.Calls P) q q) (limit : Nat) : ¬ EndsUnder w s P limit q := by
  induction limit using Nat.strong_induction_on with
  | _ limit ih =>
    intro h
    obtain ⟨limit', hlt, h'⟩ := h.of_transGen hd hP hcycle
    exact ih limit' hlt h'

theorem not_endsUnder_of_reachesCycle (hd : s.depth = 0) (hP : s.Family P) {p : String}
    (hp : s.ReachesCycle P p) (limit : Nat) : ¬ EndsUnder w s P limit p := by
  obtain ⟨q, hreach, hcycle⟩ := hp
  intro h
  rcases Relation.reflTransGen_iff_eq_or_transGen.mp hreach with rfl | hcalls
  · exact not_endsUnder_of_cycle hd hP hcycle limit h
  · obtain ⟨limit', -, h'⟩ := h.of_transGen hd hP hcalls
    exact not_endsUnder_of_cycle hd hP hcycle limit' h'

/-- **Only recursion exceeds the call depth, and recursion never ends well.** Take a state outside of all
units and a family of words.

If no cycle of calls can be reached from a word of the family, there is a longest chain of calls that starts
with it. Executing the word stays within every limit that has room for the words of that chain and for one
built-in word more, and it does not fail for want of room.

If a cycle can be reached, executing the word does not end normally under any limit. -/
theorem call_depth_of_family (w : World Op) (s : State Op) (P : Set String) (hd : s.depth = 0)
    (hP : s.Family P) (p : String) (hp : p ∈ P) (t : Token) (ht : t.name = .text p) :
    (¬ s.ReachesCycle P p →
      ∃ n, IsGreatest (s.chainLengths P p) n ∧
        ∀ limit, n + 1 ≤ limit →
          w.StaysWithin limit (fun call => call t) s ∧
          ∀ name, (w.execute limit t s).result ≠ .error (.error (.callDepthExceeded name))) ∧
    (s.ReachesCycle P p → ∀ limit, (w.execute limit t s).result ≠ .ok ()) := by
  have hcall : s.MayCall P t.name := .inl ⟨p, hp, ht⟩
  constructor
  · intro hcycle
    obtain ⟨n, hn⟩ := hP.exists_longest hp hcycle
    refine ⟨n, hn, fun limit hlimit => ?_⟩
    have hroom : HasRoom s P limit t.name := by
      refine ⟨fun q _ hq m hm => ?_, fun _ => by omega⟩
      obtain rfl : p = q := Value.text.inj (ht.symm.trans hq)
      have := hn.2 hm
      omega
    have hwithin := fun beyond => execute_within (w := w) hd hP beyond limit hcall hroom s.stack
    refine ⟨fun beyond => (hwithin beyond).1, fun name hresult => ?_⟩
    exact (hwithin Act.exceed).2.2 _ hresult trivial
  · intro hcycle limit hok
    exact not_endsUnder_of_reachesCycle hd hP hcycle limit ⟨hp, t, s.stack, ht, hok⟩

/-- The words 一, which writes a number, 二, which calls it twice, and 輪, which calls 二 and then itself. -/
def countingWords : State Empty :=
  (((State.new.install none).withWord "一" [⟨.number, .int 1, "1"⟩, .identifier "書く"]).withWord
    "二" [.identifier "一", .identifier "一"]).withWord "輪" [.identifier "二", .identifier "輪"]

theorem family_countingWords : countingWords.Family {"一", "二", "輪"} := by
  have hconstant : countingWords.Admits {"一", "二", "輪"} ⟨.number, .int 1, "1"⟩ :=
    ⟨by decide, nofun, nofun⟩
  have hidentifier : ∀ name : String, countingWords.MayCall {"一", "二", "輪"} (.text name) →
      countingWords.Admits {"一", "二", "輪"} (.identifier name) :=
    fun name h => ⟨by simp [Token.identifier], fun _ => Std.ExtTreeSet.not_mem_empty, fun _ => h⟩
  have hword : ∀ q ∈ ({"一", "二", "輪"} : Set String),
      countingWords.Admits {"一", "二", "輪"} (.identifier q) :=
    fun q hq => hidentifier q (.inl ⟨q, hq, rfl⟩)
  rintro p (rfl | rfl | rfl)
  · refine ⟨_, rfl, fun t ht => ?_⟩
    rcases List.mem_pair.mp ht with rfl | rfl
    · exact hconstant
    · exact hidentifier "書く" (.inr (.inr ⟨.write, rfl, rfl⟩))
  · refine ⟨_, rfl, fun t ht => ?_⟩
    rcases List.mem_pair.mp ht with rfl | rfl
    · exact hword "一" (by simp)
    · exact hword "一" (by simp)
  · refine ⟨_, rfl, fun t ht => ?_⟩
    rcases List.mem_pair.mp ht with rfl | rfl
    · exact hword "二" (by simp)
    · exact hword "輪" (by simp)

theorem not_reachesCycle_countingWords : ¬ countingWords.ReachesCycle {"一", "二", "輪"} "二" := by
  have hone : ∀ q, ¬ countingWords.Calls {"一", "二", "輪"} "一" q := by
    rintro q ⟨hq, tokens, hlookup, t, ht, hk, hname⟩
    obtain rfl : [⟨.number, .int 1, "1"⟩, .identifier "書く"] = tokens :=
      Definition.procedure.inj (Option.some.inj hlookup)
    rcases List.mem_pair.mp ht with rfl | rfl
    · cases hk
    · obtain rfl : "書く" = q := Value.text.inj hname
      simp at hq
  have htwo : ∀ q, countingWords.Calls {"一", "二", "輪"} "二" q → q = "一" := by
    rintro q ⟨-, tokens, hlookup, t, ht, -, hname⟩
    obtain rfl : [.identifier "一", .identifier "一"] = tokens :=
      Definition.procedure.inj (Option.some.inj hlookup)
    rcases List.mem_pair.mp ht with rfl | rfl
    · exact (Value.text.inj hname).symm
    · exact (Value.text.inj hname).symm
  have hend : ∀ q, Relation.ReflTransGen (countingWords.Calls {"一", "二", "輪"}) "一" q → q = "一" := by
    intro q h
    rcases h.cases_head with rfl | ⟨c, hc, -⟩
    · rfl
    · exact absurd hc (hone c)
  rintro ⟨q, hreach, hcycle⟩
  obtain ⟨b, hfirst, hback⟩ := Relation.TransGen.head'_iff.mp hcycle
  rcases hreach.cases_head with rfl | ⟨c, hc, hrest⟩
  · obtain rfl := htwo b hfirst
    exact absurd (hend _ hback) (by decide)
  · obtain rfl := htwo c hc
    obtain rfl := hend q hrest
    exact hone b hfirst

theorem call_depth_of_family_counting :
    countingWords.Family {"一", "二", "輪"} ∧
      (¬ countingWords.ReachesCycle {"一", "二", "輪"} "二" ∧
        ∃ n, IsGreatest (countingWords.chainLengths {"一", "二", "輪"} "二") n ∧
          ∀ limit, n + 1 ≤ limit →
            (ofFiles fun _ => .error .notFound).StaysWithin limit
              (fun call => call (.identifier "二")) countingWords ∧
            ∀ name, ((ofFiles fun _ => .error .notFound).execute limit (.identifier "二")
              countingWords).result ≠ .error (.error (.callDepthExceeded name))) ∧
      (countingWords.ReachesCycle {"一", "二", "輪"} "輪" ∧
        ∀ limit, ((ofFiles fun _ => .error .notFound).execute limit (.identifier "輪")
          countingWords).result ≠ .ok ()) := by
  have hcycle : countingWords.ReachesCycle {"一", "二", "輪"} "輪" :=
    ⟨"輪", .refl, .single ⟨by simp, _, rfl, .identifier "輪", by simp, rfl, rfl⟩⟩
  have hacyclic := not_reachesCycle_countingWords
  exact ⟨family_countingWords,
    ⟨hacyclic, (call_depth_of_family _ countingWords _ rfl family_countingWords "二" (by simp)
      (.identifier "二") rfl).1 hacyclic⟩,
    hcycle, (call_depth_of_family _ countingWords _ rfl family_countingWords "輪" (by simp)
      (.identifier "輪") rfl).2 hcycle⟩

end World

end WordMachine
