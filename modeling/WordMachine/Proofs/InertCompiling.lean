import Mathlib.Control.Monad.Basic
import WordMachine.Proofs.Classified
import WordMachine.Proofs.SharedBuffer

/-!
# Compiling is inert

As long as a unit is open, a run reads nothing of the dictionary and calls no word. So two machines that
differ in their dictionaries only stay so, token by token, and fail together. All that compiling does to
the stack is to take names off its top, one for each closer that succeeds, and all that it does to the
dictionary is to bind these names, in the order in which they come off.

Since nothing else moves the stack, the value that a declaration finds on top is still there when the
next closer comes: the declaration makes a declarer of the very name that this closer binds.
-/

namespace WordMachine

variable {Op : Type}

/-- A dictionary with more words bound, one after the other. -/
def Dictionary.bindAll (d : Dictionary Op) (bound : List (Value × List Token)) : Dictionary Op :=
  bound.foldl (fun d b => d.insert b.1 (.procedure b.2)) d

namespace State

/-- States that differ in their dictionaries at most. -/
structure SameUnits (s r : State Op) : Prop where
  stack : r.stack = s.stack
  buffer : r.buffer = s.buffer
  depth : r.depth = s.depth
  declarers : r.declarers = s.declarers

def withDictionary (s : State Op) (d : Dictionary Op) : State Op :=
  { s with dictionary := d }

theorem SameUnits.eq_withDictionary {s r : State Op} (h : s.SameUnits r) :
    r = s.withDictionary r.dictionary := by
  obtain ⟨hstack, hbuffer, hdepth, hdeclarers⟩ := h
  rw [withDictionary, ← hstack, ← hbuffer, ← hdepth, ← hdeclarers]

theorem sameUnits_withDictionary (s : State Op) (d : Dictionary Op) :
    s.SameUnits (s.withDictionary d) :=
  ⟨rfl, rfl, rfl, rfl⟩

/-- What a token binds when it is compiled: a closer gives the top of the stack the buffer as its
meaning. -/
def binding (s : State Op) (t : Token) : List (Value × List Token) :=
  if t.isCloser then [(s.top, s.buffer)] else []

theorem compiled_withDictionary (s : State Op) (d : Dictionary Op) (t : Token) :
    (s.withDictionary d).compiled t = (s.compiled t).withDictionary (d.bindAll (s.binding t)) := by
  by_cases hc : t.isCloser = true
  · simp [compiled, withDictionary, binding, Dictionary.bindAll, depthBehind, opens, top, hc]
  · simp [compiled, withDictionary, binding, Dictionary.bindAll, depthBehind, opens, top, hc]

theorem stack_compiled {s : State Op} {t : Token} (h : t.wantsTop = true → s.stack ≠ []) :
    s.stack = (s.binding t).map Prod.fst ++ (s.compiled t).stack := by
  by_cases hc : t.isCloser = true
  · obtain ⟨v, vs, hs⟩ := List.exists_cons_of_ne_nil (h (Token.wantsTop_of_isCloser hc))
    simp [binding, compiled, hc, hs, top_of_cons hs]
  · simp [binding, compiled, hc]

end State

theorem Dictionary.bindAll_append (d : Dictionary Op) (bound more : List (Value × List Token)) :
    d.bindAll (bound ++ more) = (d.bindAll bound).bindAll more :=
  List.foldl_append

namespace Act

variable {call call' : Call Op} {ts : List Token} {t : Token} {s : State Op}

/-! ## What a run binds -/

/-- What the tokens that are run before one fails bind, in order. -/
def bindings (call : Call Op) : List Token → State Op → List (Value × List Token)
  | [], _ => []
  | t :: ts, s =>
    match (runToken call t s).result with
    | .ok _ => s.binding t ++ bindings call ts (runToken call t s).state
    | .error _ => []

/-- Every token that has its turn finds a unit open. -/
def KeepsCompiling (call : Call Op) (ts : List Token) (s : State Op) : Prop :=
  ∀ k < ts.length, GetsThrough call ts s k → 0 < (stateAfter call ts s k).depth

theorem KeepsCompiling.head (h : KeepsCompiling call (t :: ts) s) : 0 < s.depth :=
  h 0 (by simp) rfl

theorem KeepsCompiling.tail (h : KeepsCompiling call (t :: ts) s)
    (hok : (runToken call t s).result = .ok ()) :
    KeepsCompiling call ts (runToken call t s).state := by
  intro k hk hthrough
  rw [← stateAfter_cons hok]
  exact h (k + 1) (by simpa using hk) ((getsThrough_cons hok ts k).mpr hthrough)

theorem closings_cons (t : Token) (ts : List Token) (k : Nat) :
    closings (t :: ts) (k + 1) = (if t.isCloser then 1 else 0) + closings ts k := by
  have hshift : closesAt (t :: ts) ∘ Nat.succ = closesAt ts := by
    funext j
    simp [closesAt]
  rw [closings, List.range_succ_eq_map, List.countP_cons, List.countP_map, hshift, Nat.add_comm]
  simp [closings, closesAt]

/-- One word is bound for each closer that succeeds. -/
theorem length_bindings (call : Call Op) (ts : List Token) (s : State Op) :
    (bindings call ts s).length = closings ts (passed call ts s) := by
  induction ts generalizing s with
  | nil => rfl
  | cons t ts ih =>
    cases hr : (runToken call t s).result with
    | ok u =>
      simp only [bindings, passed, hr, closings_cons, List.length_append, ih, State.binding]
      split <;> rfl
    | error e =>
      simp only [bindings, passed, hr]
      rfl

/-! ## Compiling whole rows of tokens -/

theorem runToken_of_nil (hd : 0 < s.depth) (hw : t.wantsTop = true) (hs : s.stack = []) :
    runToken call t s = ⟨.error (.error .emptyStack), s, "", []⟩ :=
  (runToken_of_compiling hd).trans (compile_apply_of_nil hw hs)

theorem runToken_of_top (hd : 0 < s.depth) (htop : t.wantsTop = true → s.stack ≠ []) :
    runToken call t s = ⟨.ok (), s.compiled t, "", s.compileNotes t⟩ :=
  (runToken_of_compiling hd).trans (compile_apply htop)

/-- Induction along tokens that are compiled: the next one wants a top that is not there, or it leads to
the compiled state. -/
@[elab_as_elim]
theorem KeepsCompiling.induction {motive : List Token → State Op → Prop}
    (h : KeepsCompiling call ts s) (nil : ∀ s, motive [] s)
    (fails : ∀ t ts s, 0 < s.depth → t.wantsTop = true → s.stack = [] → motive (t :: ts) s)
    (passes : ∀ t ts s, 0 < s.depth → (t.wantsTop = true → s.stack ≠ []) →
      motive ts (s.compiled t) → motive (t :: ts) s) : motive ts s := by
  induction ts generalizing s with
  | nil => exact nil s
  | cons t ts ih =>
    by_cases hfails : t.wantsTop = true ∧ s.stack = []
    · exact fails t ts s h.head hfails.1 hfails.2
    · have htop : t.wantsTop = true → s.stack ≠ [] := fun hw hs => hfails ⟨hw, hs⟩
      have hok : runToken call t s = ⟨.ok (), s.compiled t, "", s.compileNotes t⟩ :=
        runToken_of_top h.head htop
      have hrest := h.tail (by rw [hok])
      rw [hok] at hrest
      exact passes t ts s h.head htop (ih hrest)

/-- With another dictionary and other calls, compiling comes to the same but for the dictionary, which
gets the same bindings. -/
theorem interpret_withDictionary (h : KeepsCompiling call ts s) (call' : Call Op)
    (d : Dictionary Op) :
    interpret call' ts (s.withDictionary d) =
      { interpret call ts s with
        state := (interpret call ts s).state.withDictionary (d.bindAll (bindings call ts s)) } := by
  revert d
  refine KeepsCompiling.induction h ?_ ?_ ?_
  · intro s d
    rfl
  · intro t ts s hd hw hs d
    have hfail : runToken call t s = _ := runToken_of_nil hd hw hs
    have hfail' : runToken call' t (s.withDictionary d) = _ := runToken_of_nil hd hw hs
    rw [interpret, interpret, bindings, bind_apply_error hfail, bind_apply_error hfail', hfail]
    rfl
  · -- what the first token binds is bound in the dictionary that the others start from
    intro t ts s hd htop ih d
    have hok : runToken call t s = _ := runToken_of_top hd htop
    have hok' : runToken call' t (s.withDictionary d) = _ := runToken_of_top hd htop
    rw [State.compiled_withDictionary] at hok'
    rw [interpret, interpret, bindings, bind_apply_ok hok, bind_apply_ok hok', ih, hok,
      Dictionary.bindAll_append]
    rfl

/-- Compiling writes nothing, and takes off the stack just the names that it binds. -/
theorem output_stack_of_keepsCompiling (h : KeepsCompiling call ts s) :
    (interpret call ts s).output = "" ∧
      s.stack = (bindings call ts s).map Prod.fst ++ (interpret call ts s).state.stack := by
  refine KeepsCompiling.induction h ?_ ?_ ?_
  · intro s
    exact ⟨rfl, rfl⟩
  · intro t ts s hd hw hs
    have hfail : runToken call t s = _ := runToken_of_nil hd hw hs
    rw [interpret, bindings, bind_apply_error hfail, hfail]
    exact ⟨rfl, rfl⟩
  · rintro t ts s hd htop ⟨houtput, hstack⟩
    have hok : runToken call t s = _ := runToken_of_top hd htop
    rw [interpret, bindings, bind_apply_ok hok, hok]
    refine ⟨by simp [houtput], ?_⟩
    rw [List.map_append, List.append_assoc]
    exact (State.stack_compiled htop).trans (congrArg _ hstack)

/-! ## Declarations -/

/-- The closer at index `j` takes `name` off the stack and binds it to the buffer. -/
def BindsAt (call : Call Op) (ts : List Token) (s : State Op) (j : Nat) (name : Value) : Prop :=
  (stateAfter call ts s j).stack = name :: (stateAfter call ts s (j + 1)).stack ∧
    (stateAfter call ts s (j + 1)).dictionary =
      (stateAfter call ts s j).dictionary.insert name
        (.procedure (stateAfter call ts s j).buffer)

theorem stack_stateAfter_of_no_closer (h : KeepsCompiling call ts s) {i j : Nat} (hij : i ≤ j)
    (hj : j ≤ ts.length) (hthrough : GetsThrough call ts s j)
    (hno : ∀ m, i ≤ m → m < j → closesAt ts m = false) :
    (stateAfter call ts s j).stack = (stateAfter call ts s i).stack := by
  -- on `j` downwards to `i`: the token before `j` is no closer, and only closers move the stack
  induction j with
  | zero =>
    obtain rfl : i = 0 := by omega
    rfl
  | succ j ih =>
    by_cases hlast : i = j + 1
    · rw [hlast]
    · have ht : ts[j]? = some ts[j] := List.getElem?_eq_getElem (by omega)
      have hopen := h j (by omega) hthrough.of_succ
      obtain ⟨-, hstate⟩ := stateAfter_succ_of_compiling hthrough ht hopen
      have hc : (ts[j]).isCloser = false := by
        rw [← closesAt_of_some ht]
        exact hno j (by omega) (by omega)
      have hbefore := ih (by omega) (by omega) hthrough.of_succ fun m him hmj =>
        hno m him (by omega)
      rw [hstate, ← hbefore]
      simp [State.compiled, hc]

/-- A declaration makes a declarer of the name that the next closer binds. -/
theorem declaration_names_next_binding (h : KeepsCompiling call ts s)
    (hts : ∀ t ∈ ts, t.Classified) {i : Nat} (ht : ts[i]? = some t) (hk : t.kind = .declaration)
    (hi : GetsThrough call ts s (i + 1)) :
    ∃ v, (stateAfter call ts s (i + 1)).declarers = (stateAfter call ts s i).declarers.insert v ∧
      ∀ j, i < j → GetsThrough call ts s (j + 1) → closesAt ts j = true →
        (∀ m, i < m → m < j → closesAt ts m = false) → BindsAt call ts s j v := by
  have hlen : i < ts.length := (List.getElem?_eq_some_iff.mp ht).1
  have hquiet : t.isCloser = false :=
    Token.isCloser_eq_false (hts t (List.mem_of_getElem? ht)) (.inr hk)
  obtain ⟨htop, hstate⟩ := stateAfter_succ_of_compiling hi ht (h i hlen hi.of_succ)
  obtain ⟨v, vs, hstack⟩ := List.exists_cons_of_ne_nil (htop (Token.wantsTop_of_declaration hk))
  refine ⟨v, by simp [hstate, State.compiled, hk, State.top_of_cons hstack], ?_⟩
  intro j hij hj hc hno
  -- the value that was declared is still on top when the closer comes
  obtain ⟨u, hu, hcloser⟩ := exists_of_closesAt hc
  have hjlen : j < ts.length := (List.getElem?_eq_some_iff.mp hu).1
  have hunmoved := stack_stateAfter_of_no_closer h (i := i + 1) (j := j) (by omega) (by omega)
    hj.of_succ fun m him hmj => hno m (by omega) hmj
  have hsame : (stateAfter call ts s j).stack = v :: vs := by
    rw [hunmoved, hstate, ← hstack]
    simp [State.compiled, hquiet]
  obtain ⟨-, hbound⟩ := stateAfter_succ_of_compiling hj hu (h j hjlen hj.of_succ)
  refine ⟨?_, ?_⟩
  · simp [hbound, State.compiled, hcloser, hsame]
  · simp [hbound, State.compiled, hcloser, State.top_of_cons hsame]

/-- **Compiling is inert.** Classified tokens are run from two states that differ in their dictionaries
only, and a unit is open whenever a token has its turn. Then

* both runs come to the same end, and to states that differ in their dictionaries only;
* nothing is written, and whatever calling a word would do, it is not done;
* the stack loses its top values, as many as there are closers that succeed, and these values are bound
  in both dictionaries, in order and to the same words, and nothing else is;
* a declaration makes a declarer of the value that the next closer binds. -/
theorem compiling_is_inert (call call' : Call Op) {ts : List Token} {s r : State Op}
    (hts : ∀ t ∈ ts, t.Classified) (hsame : s.SameUnits r) (hopen : KeepsCompiling call ts s) :
    (interpret call' ts r).result = (interpret call ts s).result ∧
    (interpret call ts s).state.SameUnits (interpret call' ts r).state ∧
    (interpret call ts s).output = "" ∧ (interpret call' ts r).output = "" ∧
    (∀ other : Call Op, interpret other ts s = interpret call ts s ∧
      interpret other ts r = interpret call' ts r) ∧
    (interpret call ts s).state.stack = s.stack.drop (closings ts (passed call ts s)) ∧
    (bindings call ts s).length = closings ts (passed call ts s) ∧
    (bindings call ts s).map Prod.fst = s.stack.take (closings ts (passed call ts s)) ∧
    (interpret call ts s).state.dictionary = s.dictionary.bindAll (bindings call ts s) ∧
    (interpret call' ts r).state.dictionary = r.dictionary.bindAll (bindings call ts s) ∧
    ∀ i t, i < passed call ts s → ts[i]? = some t → t.kind = .declaration →
      ∃ v,
        (stateAfter call ts s (i + 1)).declarers = (stateAfter call ts s i).declarers.insert v ∧
        ∀ j, i < j → j < passed call ts s → closesAt ts j = true →
          (∀ m, i < m → m < j → closesAt ts m = false) → BindsAt call ts s j v := by
  have hleft := fun other => interpret_withDictionary hopen other s.dictionary
  have hright := fun other => interpret_withDictionary hopen other r.dictionary
  rw [← hsame.eq_withDictionary] at hright
  obtain ⟨houtput, hstack⟩ := output_stack_of_keepsCompiling hopen
  have hlength := length_bindings call ts s
  have hnames : ((bindings call ts s).map Prod.fst).length = closings ts (passed call ts s) := by
    rw [List.length_map, hlength]
  refine ⟨?_, ?_, houtput, ?_, ?_, ?_, hlength, ?_, ?_, ?_, ?_⟩
  · rw [hright]
  · rw [hright]
    exact State.sameUnits_withDictionary _ _
  · rw [hright]
    exact houtput
  · intro other
    exact ⟨(hleft other).trans (hleft call).symm, (hright other).trans (hright call').symm⟩
  · rw [hstack, ← hnames]
    exact List.drop_left.symm
  · rw [hstack, ← hnames]
    exact List.take_left.symm
  · exact congrArg (·.state.dictionary) (hleft call)
  · exact congrArg (·.state.dictionary) (hright call')
  · intro i t hi ht hk
    have hpassed := getsThrough_passed call ts s
    obtain ⟨v, hdeclarer, hbinds⟩ :=
      declaration_names_next_binding hopen hts ht hk (hpassed.mono hi)
    exact ⟨v, hdeclarer, fun j hij hj hc hno => hbinds j hij (hpassed.mono hj) hc hno⟩

/-- Three open units and names for two of them. -/
def threeOpenUnits : State Empty :=
  ⟨∅, [.text "内", .text "外"], [], 3, ∅⟩

/-- The tokens of `は 1 です 2 です です`. -/
def threeClosers : List Token :=
  [⟨.declaration, .text "は", "は"⟩, ⟨.number, .int 1, "1"⟩, .identifier "です",
   ⟨.number, .int 2, "2"⟩, .identifier "です", .identifier "です"]

/-- The third closer fails in both runs, after the first two have bound their names. -/
theorem compiling_is_inert_three :
    (∀ t ∈ threeClosers, t.Classified) ∧
      KeepsCompiling (fun _ => pure ()) threeClosers threeOpenUnits ∧
      (interpret (fun _ => write "呼") threeClosers (threeOpenUnits.install none)).result =
        .error (.error .emptyStack) ∧
      (interpret (fun _ => write "呼") threeClosers (threeOpenUnits.install none)).output = "" ∧
      (bindings (fun _ => pure ()) threeClosers threeOpenUnits).map Prod.fst =
        [.text "内", .text "外"] := by
  have hraw : ∀ t ∈ threeClosers, Token.classify t.raw = .ok t := by decide +kernel
  have hclassified : ∀ t ∈ threeClosers, t.Classified := fun t ht => ⟨t.raw, hraw t ht⟩
  have hsame : threeOpenUnits.SameUnits (threeOpenUnits.install none) := ⟨rfl, rfl, rfl, rfl⟩
  have hopen : KeepsCompiling (fun _ => pure ()) threeClosers threeOpenUnits := by
    have hdepth : ∀ k < threeClosers.length,
        0 < (stateAfter (fun _ => pure ()) threeClosers threeOpenUnits k).depth := by decide +kernel
    exact fun k hk _ => hdepth k hk
  have hfails : (interpret (fun _ => pure ()) threeClosers threeOpenUnits).result =
      .error (.error .emptyStack) := by decide +kernel
  obtain ⟨hresult, -, -, houtput, -, -, -, hnames, -⟩ :=
    compiling_is_inert (fun _ => pure ()) (fun _ => write "呼") hclassified hsame hopen
  refine ⟨hclassified, hopen, hresult.trans hfails, houtput, ?_⟩
  rw [hnames]
  decide +kernel

end Act

end WordMachine
