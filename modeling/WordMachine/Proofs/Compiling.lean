import WordMachine.Machine.Compile
import WordMachine.Proofs.Outcome

/-!
# What compiling a token does

`Act.compile` is four steps, each of which looks at the state that the one before it left. Taken
together they come to one of two ends, and nothing in between:

* the token wants the top of the stack (a declaration reads it, a closer takes it) and the stack is
  empty: compiling fails and the state is as before (`compile_apply_of_nil`);
* otherwise compiling succeeds in the state `State.compiled`, whose fields are written out in terms of
  the state before (`compile_apply`).

In both nothing is written and no word is called. Every other fact about compiling is read off these
two, field by field.
-/

namespace WordMachine

/-- Whether compiling a token looks at the top of the stack. -/
def Token.wantsTop (t : Token) : Bool :=
  t.kind = .declaration || t.isCloser

theorem Token.wantsTop_of_declaration {t : Token} (h : t.kind = .declaration) :
    t.wantsTop = true := by
  simp [wantsTop, h]

theorem Token.wantsTop_of_isCloser {t : Token} (h : t.isCloser = true) : t.wantsTop = true := by
  simp [wantsTop, h]

namespace State

variable {Op : Type}

/-- The value on top of the stack, where there is one. -/
def top (s : State Op) : Value :=
  s.stack.headD default

theorem top_of_cons {s : State Op} {v : Value} {vs : List Value} (h : s.stack = v :: vs) :
    s.top = v := by
  simp [top, h]

/-- Whether compiling `t` opens a unit: it is an identifier among the declarers. -/
def opens (s : State Op) (t : Token) : Bool :=
  t.kind = .identifier && s.declarers.contains t.name

/-- How many units are open behind the token `t`. -/
def depthBehind (s : State Op) (t : Token) : Nat :=
  s.depth - (if t.isCloser then 1 else 0) + (if s.opens t then 1 else 0)

/-- The state that compiling `t` leads to, if it does not fail. -/
def compiled (s : State Op) (t : Token) : State Op where
  dictionary :=
    if t.isCloser then s.dictionary.insert s.top (.procedure s.buffer) else s.dictionary
  stack := if t.isCloser then s.stack.tail else s.stack
  buffer :=
    (if t.isCloser ∧ s.depth ≤ 1 then [] else s.buffer) ++
      (if 0 < s.depthBehind t then [t] else [])
  depth := s.depthBehind t
  declarers := if t.kind = .declaration then s.declarers.insert s.top else s.declarers

theorem depthBehind_pos {s : State Op} {t : Token} (hd : 0 < s.depth)
    (h : t.isCloser = true → 1 < s.depth) : 0 < s.depthBehind t := by
  unfold depthBehind
  by_cases hc : t.isCloser = true
  · have := h hc
    rw [if_pos hc]
    omega
  · rw [if_neg hc]
    omega

/-- A token that does not close the last open unit is kept behind all others. -/
theorem buffer_compiled {s : State Op} {t : Token} (hd : 0 < s.depth)
    (h : t.isCloser = true → 1 < s.depth) : (s.compiled t).buffer = s.buffer ++ [t] := by
  have hkeeps : ¬ (t.isCloser = true ∧ s.depth ≤ 1) := by
    rintro ⟨hc, hle⟩
    have := h hc
    omega
  rw [compiled, if_neg hkeeps, if_pos (depthBehind_pos hd h)]

/-! What the compiled state holds was there before, or it is the token, or a word made of the buffer. -/

section Holds

variable {s : State Op} {t : Token}

theorem mem_buffer_of_compiled {u : Token} (h : u ∈ (s.compiled t).buffer) : u ∈ s.buffer ∨ u = t := by
  rcases List.mem_append.mp h with hkept | hnew
  · split at hkept
    · cases hkept
    · exact .inl hkept
  · split at hnew
    · exact .inr (List.mem_singleton.mp hnew)
    · cases hnew

theorem mem_stack_of_compiled {v : Value} (h : v ∈ (s.compiled t).stack) : v ∈ s.stack := by
  simp only [compiled] at h
  split at h
  · exact List.mem_of_mem_tail h
  · exact h

theorem mem_declarers_of_compiled {v : Value} (h : v ∈ (s.compiled t).declarers) :
    v ∈ s.declarers ∨ v = s.top := by
  simp only [compiled] at h
  split at h
  · rcases Std.ExtTreeSet.mem_insert.mp h with heq | hold
    · exact .inr (Std.LawfulEqOrd.eq_of_compare heq).symm
    · exact .inl hold
  · exact .inl h

theorem getElem?_of_compiled {name : Value} {d : Definition Op}
    (h : (s.compiled t).dictionary[name]? = some d) :
    s.dictionary[name]? = some d ∨ name = s.top ∧ d = .procedure s.buffer := by
  simp only [compiled] at h
  split at h
  · rw [Std.ExtTreeMap.getElem?_insert] at h
    split at h
    · rename_i heq
      cases h
      exact .inr ⟨(Std.LawfulEqOrd.eq_of_compare heq).symm, rfl⟩
    · exact .inl h
  · exact .inl h

end Holds

/-- What is noted while `t` is compiled. -/
def compileNotes (s : State Op) (t : Token) : List Note :=
  (if t.kind = .declaration then [.declarer s.top] else []) ++
    (if t.isCloser then [.defining s.top s.buffer.length] else [])

end State

namespace Act

variable {Op α : Type}

/-! ## The four steps -/

theorem declareTop_apply {t : Token} {s : State Op} (h : t.kind = .declaration → s.stack ≠ []) :
    declareTop t s =
      ⟨.ok (),
        { s with
          declarers := if t.kind = .declaration then s.declarers.insert s.top else s.declarers },
        "", if t.kind = .declaration then [.declarer s.top] else []⟩ := by
  rw [declareTop]
  by_cases hd : t.kind = .declaration
  · obtain ⟨v, vs, hs⟩ := List.exists_cons_of_ne_nil (h hd)
    rw [if_pos hd, bind_apply_ok (peek_apply_of_cons hs), bind_apply_ok (note_apply _ _),
      modify_apply]
    simp [hd, State.top_of_cons hs, Outcome.behind_mk]
  · rw [if_neg hd, if_neg hd, if_neg hd]
    rfl

theorem declareTop_apply_of_nil {t : Token} {s : State Op} (h : t.kind = .declaration)
    (hs : s.stack = []) : declareTop t s = ⟨.error (.error .emptyStack), s, "", []⟩ := by
  rw [declareTop, if_pos h, bind_apply_error (peek_apply_of_nil hs)]

/-- A closer that finds a top closes a unit under that name; any other token passes the second
step. -/
theorem closeUnit_apply {t : Token} {s : State Op} (h : t.isCloser = true → s.stack ≠ []) :
    closeUnit t s =
      ⟨.ok (),
        { s with
          dictionary :=
            if t.isCloser then s.dictionary.insert s.top (.procedure s.buffer) else s.dictionary
          stack := if t.isCloser then s.stack.tail else s.stack
          buffer := if t.isCloser ∧ s.depth ≤ 1 then [] else s.buffer
          depth := s.depth - (if t.isCloser then 1 else 0) },
        "", if t.isCloser then [.defining s.top s.buffer.length] else []⟩ := by
  rw [closeUnit]
  by_cases hc : t.isCloser = true
  · obtain ⟨v, vs, hs⟩ := List.exists_cons_of_ne_nil (h hc)
    rw [if_pos hc, bind_apply_ok (pop_apply_of_cons hs), modify_bind_apply, get_bind_apply, define,
      bind_assoc, bind_apply_ok (note_apply _ _), modify_bind_apply, modify_apply]
    simp only [hc, State.top_of_cons hs, hs, Outcome.behind_mk]
    by_cases hd : s.depth ≤ 1
    · simp [hd, show s.depth - 1 = 0 by omega]
    · simp [hd, show s.depth - 1 ≠ 0 by omega]
  · simp only [hc]
    rfl

theorem closeUnit_apply_of_nil {t : Token} {s : State Op} (h : t.isCloser = true)
    (hs : s.stack = []) : closeUnit t s = ⟨.error (.error .emptyStack), s, "", []⟩ := by
  rw [closeUnit, if_pos h, bind_apply_error (pop_apply_of_nil hs)]

theorem openUnit_apply (t : Token) (s : State Op) :
    openUnit t s =
      ⟨.ok (), { s with depth := s.depth + (if s.opens t then 1 else 0) }, "", []⟩ := by
  rw [openUnit, modify_apply]
  by_cases h : s.opens t = true
  · have h' : t.kind = .identifier ∧ s.declarers.contains t.name = true := by
      simpa [State.opens] using h
    rw [if_pos h', if_pos h]
  · have h' : ¬ (t.kind = .identifier ∧ s.declarers.contains t.name = true) := by
      simpa [State.opens] using h
    rw [if_neg h', if_neg h]
    rfl

theorem keep_apply (t : Token) (s : State Op) :
    keep t s =
      ⟨.ok (), { s with buffer := s.buffer ++ (if 0 < s.depth then [t] else []) }, "", []⟩ := by
  rw [keep, modify_apply]
  by_cases h : 0 < s.depth
  · rw [if_pos h, if_pos h]
  · rw [if_neg h, if_neg h, List.append_nil]

/-! ## The whole -/

theorem compile_apply {t : Token} {s : State Op} (h : t.wantsTop = true → s.stack ≠ []) :
    compile t s = ⟨.ok (), s.compiled t, "", s.compileNotes t⟩ := by
  have hd : t.kind = .declaration → s.stack ≠ [] := fun hd => h (Token.wantsTop_of_declaration hd)
  have hc : t.isCloser = true → s.stack ≠ [] := fun hc => h (Token.wantsTop_of_isCloser hc)
  have hclose := closeUnit_apply (t := t) (s := { s with
    declarers := if t.kind = .declaration then s.declarers.insert s.top else s.declarers }) hc
  rw [compile, bind_apply_ok (declareTop_apply hd), bind_apply_ok hclose,
    bind_apply_ok (openUnit_apply _ _), keep_apply]
  -- only a declaration adds a declarer, and only an identifier is looked up among them
  by_cases hk : t.kind = .declaration
  · simp [State.compiled, State.compileNotes, State.depthBehind, State.opens, State.top, hk,
      Outcome.behind_mk]
  · simp [State.compiled, State.compileNotes, State.depthBehind, State.opens, State.top, hk,
      Outcome.behind_mk]

theorem compile_apply_of_nil {t : Token} {s : State Op} (h : t.wantsTop = true)
    (hs : s.stack = []) : compile t s = ⟨.error (.error .emptyStack), s, "", []⟩ := by
  rw [compile]
  by_cases hd : t.kind = .declaration
  · rw [bind_apply_error (declareTop_apply_of_nil hd hs)]
  · have hc : t.isCloser = true := by simpa [Token.wantsTop, hd] using h
    rw [bind_apply_ok (declareTop_apply fun h => absurd h hd)]
    simp only [if_neg hd]
    rw [bind_apply_error (closeUnit_apply_of_nil hc hs), Outcome.behind_nil]

/-- Compiling fails and changes nothing, or it comes to the compiled state. -/
theorem compile_cases (t : Token) (s : State Op) :
    compile t s = ⟨.error (.error .emptyStack), s, "", []⟩ ∨
      compile t s = ⟨.ok (), s.compiled t, "", s.compileNotes t⟩ := by
  by_cases hfails : t.wantsTop = true ∧ s.stack = []
  · exact .inl (compile_apply_of_nil hfails.1 hfails.2)
  · exact .inr (compile_apply fun hw hs => hfails ⟨hw, hs⟩)

end Act

end WordMachine
