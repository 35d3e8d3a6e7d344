import WordMachine.Proofs.Block
import WordMachine.Proofs.CallDepth

/-!
# Calling a word and running its body in place

A call runs something one call deeper. Run in place of the call, the same comes to the same, as long as
the limit on nested calls does not show. `Act.CallSite` is a call with all that is run before and after
it; `called` is the run with the call and `inlined` the run with the body in its place. If the one stays
within the limit, so that it would not end in a mark that calls beyond the limit failed with, it is the
same as the other with the room that the other needs (`CallSite.agrees_of_called`,
`CallSite.agrees_of_inlined`). What is noted on the way differs, which is why outcomes are compared
without it (`Outcome.Agrees`).

Defining a word, calling it and going on with `rest` is an instance: it is the same as running the body
and going on with `rest`, once the word is in the dictionary (`define_and_call_eq_inline`).
-/

namespace WordMachine

variable {Op α β : Type}

/-- The same end in the same state after the same output, whatever was noted on the way. -/
def Outcome.Agrees (o p : Outcome Op α) : Prop :=
  o.result = p.result ∧ o.state = p.state ∧ o.output = p.output

namespace Outcome

theorem Agrees.refl (o : Outcome Op α) : o.Agrees o :=
  ⟨rfl, rfl, rfl⟩

theorem Agrees.symm {o p : Outcome Op α} (h : o.Agrees p) : p.Agrees o :=
  ⟨h.1.symm, h.2.1.symm, h.2.2.symm⟩

theorem Agrees.trans {o p q : Outcome Op α} (h : o.Agrees p) (h' : p.Agrees q) : o.Agrees q :=
  ⟨h.1.trans h'.1, h.2.1.trans h'.2.1, h.2.2.trans h'.2.2⟩

theorem agrees_behind (o : Outcome Op α) (notes : List Note) : (o.behind "" notes).Agrees o :=
  ⟨rfl, rfl, by simp⟩

end Outcome

/-- Acts that agree, each followed by acts that agree from there. -/
theorem Act.bind_agrees {m m' : Act Op α} {f f' : α → Act Op β} {s s' : State Op}
    (hm : (m s).Agrees (m' s'))
    (hf : ∀ a, (m s).result = .ok a → (f a (m s).state).Agrees (f' a (m s).state)) :
    ((m >>= f) s).Agrees ((m' >>= f') s') := by
  obtain ⟨hresult, hstate, houtput⟩ := hm
  cases hr : (m s).result with
  | ok a =>
    obtain ⟨hresult', hstate', houtput'⟩ := hf a hr
    rw [bind_apply_of_ok hr, bind_apply_of_ok (hresult.symm.trans hr), ← hstate]
    exact ⟨hresult', hstate', by rw [houtput, houtput']⟩
  | error e =>
    rw [bind_apply_of_error hr, bind_apply_of_error (hresult.symm.trans hr)]
    exact ⟨rfl, hstate, houtput⟩

/-! ## A call and what it runs -/

namespace Act

/-- A call between two runs, and what is run by the call. -/
structure CallSite (Op : Type) where
  before : Call Op → Act Op Unit
  call : Call Op → Act Op Unit
  body : Call Op → Act Op Unit
  after : Call Op → Act Op Unit
  before_respects : RespectsCalls before
  body_respects : RespectsCalls body
  after_respects : RespectsCalls after

namespace CallSite

/-- The run with the call. -/
def called (site : CallSite Op) (call : Call Op) : Act Op Unit := do
  site.before call
  site.call call
  site.after call

/-- The run with the body in place of the call. -/
def inlined (site : CallSite Op) (call : Call Op) : Act Op Unit := do
  site.before call
  site.body call
  site.after call

/-- From the state `s` the call runs the body one call deeper, and fails if there is no room for it. -/
structure Enters (site : CallSite Op) (w : World Op) (s : State Op) : Prop where
  deeper : ∀ (beyond : Call Op) (limit : Nat),
    (site.call (w.executeBeyond beyond (limit + 1)) s).Agrees
      (site.body (w.executeBeyond beyond limit) s)
  beyond : ∀ mark, (site.call (w.executeMarked mark 0) s).result = .error mark

variable {site : CallSite Op} {w : World Op} {limit : Nat} {r s : State Op}

theorem result_of_before_error {call : Call Op} {e : Failure} {rest : Unit → Act Op Unit}
    (h : (site.before call r).result = .error e) :
    ((site.before call >>= rest) r).result = .error e := by
  rw [bind_apply_of_error h]

/-- The call, made from the state that `before` leads to, and the body run there. -/
theorem called_agrees (site : CallSite Op) (call beyond : Call Op) (limit : Nat)
    (hcall : call = w.executeBeyond beyond (limit + 1))
    (h : (site.before call r).result = .ok () → site.Enters w (site.before call r).state) :
    (site.called call r).Agrees
      ((do site.before call; site.body (w.executeBeyond beyond limit); site.after call :
        Act Op Unit) r) := by
  refine bind_agrees (.refl _) fun _ hr => ?_
  refine bind_agrees ?_ fun _ _ => .refl _
  rw [hcall] at h hr ⊢
  exact (h hr).deeper beyond limit

/-- A run with the call that stays within the limit is the run with the body in its place. -/
theorem agrees_of_called {program : Call Op → Act Op Unit} (hstays : w.StaysWithin limit program s)
    (hprogram : ∀ call, (program call s).Agrees (site.called call r))
    (henters : (site.before (w.execute limit) r).result = .ok () →
      site.Enters w (site.before (w.execute limit) r).state) :
    (program (w.execute limit) s).Agrees (site.inlined (w.execute limit) r) := by
  obtain ⟨mark, hmark⟩ := hstays.exists_mark
  have hsame : program (w.executeMarked mark limit) s = program (w.execute limit) s := hstays _
  have hrun := hprogram (w.executeMarked mark limit)
  have hgood : ∀ e, (site.called (w.executeMarked mark limit) r).result = .error e → ¬ e = mark :=
    fun e he => hmark e (hrun.1.trans he)
  have hbefore : site.before (w.execute limit) r = site.before (w.executeMarked mark limit) r :=
    site.before_respects _ _ _ (w.execute_agreesUnless mark limit 0) r
      fun e he => hgood e (result_of_before_error he)
  rw [hbefore] at henters
  rw [← hsame]
  refine hrun.trans ?_
  cases limit with
  | zero =>
    -- the call itself is beyond the limit, so the run never came to it
    refine bind_agrees (by rw [hbefore]; exact .refl _) fun _ hr => ?_
    have hfail := (henters hr).beyond mark
    refine absurd rfl (hgood mark ?_)
    unfold called
    rw [bind_apply_of_ok hr, bind_apply_of_error hfail]
  | succ limit =>
    have hcalled := site.called_agrees _ _ limit rfl henters
    refine hcalled.trans ?_
    -- the body has one call less of room than what is run around it
    have hinlined : AgreesUnless (· = mark)
        (do site.before (w.executeMarked mark (limit + 1))
            site.body (w.executeMarked mark limit)
            site.after (w.executeMarked mark (limit + 1)))
        (site.inlined (w.execute (limit + 1))) :=
      .bind (site.before_respects _ _ _ (w.execute_agreesUnless mark (limit + 1) 0)) fun _ =>
        .bind (site.body_respects _ _ _ (w.execute_agreesUnless mark limit 1)) fun _ =>
          site.after_respects _ _ _ (w.execute_agreesUnless mark (limit + 1) 0)
    have heq := hinlined r fun e he => hgood e (hcalled.1.trans he)
    rw [heq]
    exact .refl _

/-- A run with the body that stays within the limit is the run with the call, given room for one call
more. -/
theorem agrees_of_inlined {program : Call Op → Act Op Unit}
    (hstays : w.StaysWithin limit site.inlined r)
    (hprogram : ∀ call, (program call s).Agrees (site.called call r))
    (henters : (site.before (w.execute limit) r).result = .ok () →
      site.Enters w (site.before (w.execute limit) r).state) :
    (program (w.execute (limit + 1)) s).Agrees (site.inlined (w.execute limit) r) := by
  obtain ⟨mark, hmark⟩ := hstays.exists_mark
  have hsame : site.inlined (w.executeMarked mark limit) r = site.inlined (w.execute limit) r :=
    hstays _
  have hbefore : ∀ k, site.before (w.execute (limit + k)) r =
      site.before (w.executeMarked mark limit) r := fun k =>
    site.before_respects _ _ _ (w.execute_agreesUnless mark limit k) r
      fun e he => hmark e (result_of_before_error he)
  have hroom : AgreesUnless (· = mark) (site.inlined (w.executeMarked mark limit))
      (do site.before (w.execute (limit + 1))
          site.body (w.execute limit)
          site.after (w.execute (limit + 1))) :=
    .bind (site.before_respects _ _ _ (w.execute_agreesUnless mark limit 1)) fun _ =>
      .bind (site.body_respects _ _ _ (w.execute_agreesUnless mark limit 0)) fun _ =>
        site.after_respects _ _ _ (w.execute_agreesUnless mark limit 1)
  have henters' : (site.before (w.execute (limit + 1)) r).result = .ok () →
      site.Enters w (site.before (w.execute (limit + 1)) r).state := by
    rw [hbefore 1, ← hbefore 0]
    exact henters
  have hcalled := site.called_agrees (w.execute (limit + 1)) exceed limit
    (w.execute_eq_executeBeyond (limit + 1)) henters'
  rw [← World.execute_eq_executeBeyond, hroom r hmark, hsame] at hcalled
  exact (hprogram _).trans hcalled

end CallSite

end Act

/-! ## A word that was just defined -/

/-- Behind its definition a word is called. -/
theorem Act.interpret_definition_call (call : Call Op) {s : State Op} {n : String} {body : List Token}
    (hd : s.depth = 0) (hb : s.buffer = []) (hn : Value.text n ∉ s.declarers)
    (hend : Value.text "です" ∉ s.declarers) (h : ∀ t ∈ body, s.Inert t) (rest : List Token) :
    (interpret call (Token.definition n body ++ Token.identifier n :: rest) s).Agrees
      ((do call (Token.identifier n); interpret call rest : Act Op Unit) (s.withWord n body)) := by
  have hname : runToken call (Token.identifier n) (s.withWord n body) =
      call (Token.identifier n) (s.withWord n body) :=
    runToken_identifier (s := s.withWord n body) hd hn
  rw [interpret_append, bind_apply_ok (interpret_definition hd hb hend h), interpret,
    bind_apply_congr hname]
  exact Outcome.agrees_behind _ _

namespace World

variable {w : World Op} {limit : Nat} {s : State Op} {n : String} {body rest : List Token}

theorem dictionary_withWord (s : State Op) (n : String) (body : List Token) :
    (s.withWord n body).dictionary[(Token.identifier n).name]? = some (.procedure body) := by
  simp [State.withWord, Token.identifier, Token.name]

/-- A word is called and `rest` is run. -/
def wordSite (n : String) (body rest : List Token) : Act.CallSite Op where
  before _ := pure ()
  call call := call (Token.identifier n)
  body call := Act.interpret call body
  after call := Act.interpret call rest
  before_respects _ _ _ _ := .refl _
  body_respects := Act.respectsCalls_interpret body
  after_respects := Act.respectsCalls_interpret rest

theorem called_wordSite (n : String) (body rest : List Token) (call : Act.Call Op) :
    (wordSite n body rest).called call =
      (do call (Token.identifier n); Act.interpret call rest) := by
  simp [Act.CallSite.called, wordSite]

theorem inlined_wordSite (n : String) (body rest : List Token) (call : Act.Call Op) :
    (wordSite n body rest).inlined call = Act.interpret call (body ++ rest) := by
  simp [Act.CallSite.inlined, wordSite, Act.interpret_append]

theorem wordSite_enters (w : World Op) (s : State Op) (n : String) (body rest : List Token) :
    (wordSite n body rest).Enters w (s.withWord n body) := by
  refine ⟨fun beyond limit => ?_, fun mark => ?_⟩
  · have hcall : w.executeBeyond beyond (limit + 1) (Token.identifier n) (s.withWord n body) =
        Act.interpret (w.executeBeyond beyond limit) body (s.withWord n body) :=
      executeBeyond_succ_apply (dictionary_withWord s n body) limit
    simp only [wordSite, hcall]
    exact .refl _
  · have hfail : w.executeMarked mark 0 (Token.identifier n) (s.withWord n body) =
        ⟨.error mark, s.withWord n body, "", []⟩ :=
      executeBeyond_zero_apply (dictionary_withWord s n body)
    simp only [wordSite, hfail]

/-- A call within the limit does what the body does. -/
theorem agrees_of_call_within {called : Act.Call Op → Act Op Unit} (hstays : w.StaysWithin limit called s)
    (hcalled : ∀ call, (called call s).Agrees
      ((do call (Token.identifier n); Act.interpret call rest : Act Op Unit) (s.withWord n body))) :
    (called (w.execute limit) s).Agrees
      (Act.interpret (w.execute limit) (body ++ rest) (s.withWord n body)) := by
  rw [← inlined_wordSite n]
  refine Act.CallSite.agrees_of_called hstays ?_ fun _ => wordSite_enters w s n body rest
  intro call
  rw [called_wordSite]
  exact hcalled call

/-- A body within the limit does what a call does that has room for one call more. -/
theorem agrees_of_body_within {called : Act.Call Op → Act Op Unit}
    (hstays : w.StaysWithin limit (fun call => Act.interpret call (body ++ rest)) (s.withWord n body))
    (hcalled : ∀ call, (called call s).Agrees
      ((do call (Token.identifier n); Act.interpret call rest : Act Op Unit) (s.withWord n body))) :
    (called (w.execute (limit + 1)) s).Agrees
      (Act.interpret (w.execute limit) (body ++ rest) (s.withWord n body)) := by
  have hinlined : (fun call => Act.interpret call (body ++ rest)) =
      (wordSite n body rest : Act.CallSite Op).inlined := by
    funext call
    exact (inlined_wordSite n body rest call).symm
  rw [hinlined] at hstays
  rw [← inlined_wordSite n]
  refine Act.CallSite.agrees_of_inlined hstays ?_ fun _ => wordSite_enters w s n body rest
  intro call
  rw [called_wordSite]
  exact hcalled call

/-- A defined word and its body, run in place of the word, come to the same.

The body runs one call deeper when it is called. So if the call stays within the limit, the body in its
place needs no larger one; and if the body in its place stays within the limit, the call needs room for
one call more. -/
theorem define_and_call_eq_inline (w : World Op) (limit : Nat) (s : State Op) (n : String)
    (body rest : List Token) (hd : s.depth = 0) (hb : s.buffer = [])
    (hn : Value.text n ∉ s.declarers) (hend : Value.text "です" ∉ s.declarers)
    (h : ∀ t ∈ body, s.Inert t) :
    (w.StaysWithin limit
        (fun call => Act.interpret call (Token.definition n body ++ Token.identifier n :: rest)) s →
      (Act.interpret (w.execute limit)
          (Token.definition n body ++ Token.identifier n :: rest) s).Agrees
        (Act.interpret (w.execute limit) (body ++ rest) (s.withWord n body))) ∧
    (w.StaysWithin limit (fun call => Act.interpret call (body ++ rest)) (s.withWord n body) →
      (Act.interpret (w.execute (limit + 1))
          (Token.definition n body ++ Token.identifier n :: rest) s).Agrees
        (Act.interpret (w.execute limit) (body ++ rest) (s.withWord n body))) := by
  have hcalled := fun call => Act.interpret_definition_call call hd hb hn hend h rest
  exact ⟨fun hstays => agrees_of_call_within hstays hcalled,
    fun hstays => agrees_of_body_within hstays hcalled⟩

/-- Adding two. -/
def addTwo : List Token :=
  [⟨.number, .int 2, "2"⟩, .identifier "足す"]

/-- A machine with three on its stack. -/
def threeOnStack : State Empty :=
  { State.new.install none with stack := [.int 3] }

theorem define_and_call_eq_inline_addTwo :
    (∀ t ∈ addTwo, threeOnStack.Inert t) ∧
      (Act.interpret ((ofFiles fun _ => .error .notFound).execute callLimit)
          (Token.definition "倍" addTwo ++ [Token.identifier "倍"]) threeOnStack).Agrees
        (Act.interpret ((ofFiles fun _ => .error .notFound).execute callLimit) addTwo
          (threeOnStack.withWord "倍" addTwo)) ∧
      (Act.interpret ((ofFiles fun _ => .error .notFound).execute (callLimit + 1))
          (Token.definition "倍" addTwo ++ [Token.identifier "倍"]) threeOnStack).Agrees
        (Act.interpret ((ofFiles fun _ => .error .notFound).execute callLimit) addTwo
          (threeOnStack.withWord "倍" addTwo)) := by
  have hinert : ∀ t ∈ addTwo, threeOnStack.Inert t := by decide
  have hempty : ∀ v : Value, v ∉ threeOnStack.declarers := fun v => Std.ExtTreeSet.not_mem_empty
  obtain ⟨hcall, hbody⟩ := define_and_call_eq_inline (ofFiles fun _ => .error .notFound) callLimit
    threeOnStack "倍" addTwo [] rfl rfl (hempty _) (hempty _) hinert
  refine ⟨hinert, hcall ?_, hbody ?_⟩
  · exact staysWithin_of_isOk (by decide +kernel)
  · exact staysWithin_of_isOk (by decide +kernel)

end World

end WordMachine
