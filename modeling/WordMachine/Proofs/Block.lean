import WordMachine.Proofs.RunPrefix

/-!
# Definition blocks

A definition block is a name as a literal, a declaration, the tokens of the body and a closer. The body
is read while one unit is open, so nothing in it is executed. Its tokens are *inert* if none of them is
a declaration, a closer or a declarer; then they only pile up in the buffer (`interpret_of_inert`), and
all that the block does is to give the name its meaning (`interpret_definition`).
-/

namespace WordMachine

namespace Token

/-- A text in brackets. -/
def literal (text : String) : Token :=
  ⟨.literal, .text text, "「" ++ text ++ "」"⟩

/-- The token は. -/
def declaration : Token :=
  ⟨.declaration, .text "は", "は"⟩

/-- The token です. -/
def closer : Token :=
  identifier "です"

/-- The block that gives the name `n` the meaning `body`. -/
def definition (n : String) (body : List Token) : List Token :=
  literal n :: declaration :: (body ++ [closer])

end Token

variable {Op : Type}

namespace State

/-- Whether the token is only kept when it is compiled: it is no declaration, closes no unit and opens
none. -/
def Inert (s : State Op) (t : Token) : Prop :=
  t.kind ≠ .declaration ∧ t.isCloser = false ∧ s.opens t = false

instance (s : State Op) (t : Token) : Decidable (s.Inert t) :=
  inferInstanceAs (Decidable (_ ∧ _ ∧ _))

/-- The state with one word more, or with another meaning of that word. -/
def withWord (s : State Op) (n : String) (body : List Token) : State Op :=
  { s with dictionary := s.dictionary.insert (.text n) (.procedure body) }

theorem compiled_of_inert {s : State Op} {t : Token} (h : s.Inert t) (hd : 0 < s.depth) :
    s.compiled t = { s with buffer := s.buffer ++ [t] } := by
  obtain ⟨hk, hc, ho⟩ := h
  simp [compiled, depthBehind, hk, hc, ho, hd]

theorem Inert.of_buffer {s : State Op} {t : Token} (h : s.Inert t) (buffer : List Token) :
    Inert { s with buffer := buffer } t := h

end State

namespace Act

theorem compile_of_inert {s : State Op} {t : Token} (h : s.Inert t) (hd : 0 < s.depth) :
    compile t s = ⟨.ok (), { s with buffer := s.buffer ++ [t] }, "", []⟩ := by
  have hnotes : s.compileNotes t = [] := by simp [State.compileNotes, h.1, h.2.1]
  have htop : t.wantsTop = true → s.stack ≠ [] := by simp [Token.wantsTop, h.1, h.2.1]
  rw [compile_apply htop, State.compiled_of_inert h hd, hnotes]

theorem interpret_of_inert {call : Call Op} {body : List Token} {s : State Op} (hd : 0 < s.depth)
    (h : ∀ t ∈ body, s.Inert t) :
    interpret call body s = ⟨.ok (), { s with buffer := s.buffer ++ body }, "", []⟩ := by
  induction body generalizing s with
  | nil => simp [interpret, pure_apply]
  | cons t body ih =>
    have hfirst : runToken call t s = ⟨.ok (), { s with buffer := s.buffer ++ [t] }, "", []⟩ := by
      rw [runToken_of_compiling hd, compile_of_inert (h t (by simp)) hd]
    have hlater : ∀ u ∈ body, State.Inert { s with buffer := s.buffer ++ [t] } u :=
      fun u hu => (h u (by simp [hu])).of_buffer _
    have hrest := ih (s := { s with buffer := s.buffer ++ [t] }) hd hlater
    rw [interpret, bind_apply_ok hfirst, Outcome.behind_nil, hrest]
    simp

/-! ## Tokens outside a unit -/

section Executing

variable {call : Call Op} {s : State Op}

theorem runToken_of_executing (h : s.depth = 0) (t : Token) :
    runToken call t s = obey call t s := by
  rw [runToken, get_bind_apply, if_neg (by omega)]

theorem runToken_literal (h : s.depth = 0) (n : String) :
    runToken call (Token.literal n) s = ⟨.ok (), { s with stack := .text n :: s.stack }, "", []⟩ := by
  rw [runToken_of_executing h]
  rfl

theorem runToken_declaration (h : s.depth = 0) :
    runToken call Token.declaration s =
      ⟨.ok (), { s with depth := 1 }, "", [.compiling (.text "は")]⟩ := by
  rw [runToken_of_executing h]
  have hopens : s.isDeclarer Token.declaration = true := by simp [State.isDeclarer, Token.declaration]
  rw [obey, if_neg (by decide), if_neg (by decide), get_bind_apply, if_pos hopens,
    modify_bind_apply, note_apply, h]
  rfl

theorem runToken_identifier (h : s.depth = 0) {n : String}
    (hn : Value.text n ∉ s.declarers) :
    runToken call (Token.identifier n) s = call (Token.identifier n) s := by
  rw [runToken_of_executing h]
  have hplain : ¬ s.isDeclarer (Token.identifier n) = true := by
    simpa [State.isDeclarer, Token.identifier, Token.name] using hn
  rw [obey, if_neg (by simp [Token.identifier, Token.isConstant]), if_neg (by simp [Token.identifier]),
    get_bind_apply, if_neg hplain]

end Executing

/-! ## The block -/

/-- A closer at depth one that opens nothing defines the word. -/
theorem runToken_closer (call : Call Op) {s : State Op} {n : String} {vs : List Value}
    (hd : s.depth = 1) (hs : s.stack = .text n :: vs)
    (hend : Value.text "です" ∉ s.declarers) :
    runToken call Token.closer s =
      ⟨.ok (), { s.withWord n s.buffer with stack := vs, buffer := [], depth := 0 }, "",
        [.defining (.text n) s.buffer.length]⟩ := by
  have hcloser : Token.closer.isCloser = true := by decide
  have hkind : Token.closer.kind ≠ .declaration := by decide
  have hopens : ¬ s.opens Token.closer = true := by
    simpa [State.opens, Token.closer, Token.identifier, Token.name] using hend
  have htop : Token.closer.wantsTop = true → s.stack ≠ [] := by simp [hs]
  rw [runToken_of_compiling (by omega), compile_apply htop]
  simp [State.compiled, State.compileNotes, State.depthBehind, State.withWord, State.top_of_cons hs,
    hcloser, hkind, hopens, hd, hs]

/-- A definition block defines its word and changes nothing else. -/
theorem interpret_definition {call : Call Op} {s : State Op} {n : String} {body : List Token}
    (hd : s.depth = 0) (hb : s.buffer = []) (hend : Value.text "です" ∉ s.declarers)
    (h : ∀ t ∈ body, s.Inert t) :
    interpret call (Token.definition n body) s =
      ⟨.ok (), s.withWord n body, "",
        [.compiling (.text "は"), .defining (.text n) body.length]⟩ := by
  let named : State Op := { s with stack := .text n :: s.stack }
  let opened : State Op := { named with depth := 1 }
  let filled : State Op := { opened with buffer := opened.buffer ++ body }
  have hbody : interpret call body opened = ⟨.ok (), filled, "", []⟩ :=
    interpret_of_inert Nat.one_pos h
  have hclose := runToken_closer call (s := filled) (n := n) rfl rfl hend
  have hstate : { filled.withWord n filled.buffer with stack := s.stack, buffer := [], depth := 0 } =
      s.withWord n body := by
    simp [filled, opened, named, State.withWord, hb, hd]
  have hlength : filled.buffer.length = body.length := by simp [filled, opened, named, hb]
  rw [hstate, hlength] at hclose
  have hlast : interpret call [Token.closer] filled =
      ⟨.ok (), s.withWord n body, "", [.defining (.text n) body.length]⟩ := by
    rw [interpret, bind_apply_ok hclose]
    rfl
  rw [Token.definition, interpret, bind_apply_ok (runToken_literal hd n), interpret,
    bind_apply_ok (runToken_declaration (s := named) hd), interpret_append, bind_apply_ok hbody, hlast]
  rfl

end Act

end WordMachine
