import Mathlib.Control.Monad.Basic
import WordMachine.Proofs.Block
import WordMachine.Proofs.Classified
import WordMachine.Proofs.Simulation

/-!
# What the machine sees of a token

Of a classified token the machine sees its *gist* only: nothing of a comment, of a declaration that it
is one, and of any other token its kind and its payload. How a numeral or a declaration is spelt, whether
a literal is closed and what a comment says make no difference to a run, although all of it is kept in
the buffer and in compiled words and comes back whenever these words are called.

States are alike if they differ in such things only (`State.Alike`). Compiling a token keeps states
alike, because a comment or a declaration never closes a unit (`Token.isCloser_eq_false`); a comment
moves one run and leaves the other where it is. So likeness is a simulation, and runs of tokens with the
same gists from states that are alike end alike (`interpret_alike_of_gists`).
-/

namespace WordMachine

variable {Op : Type}

/-- What the machine sees of a token. -/
inductive Gist where
  | declaration
  | other (kind : Token.Kind) (payload : Value)
deriving DecidableEq, Repr

namespace Token

/-- The gist of a token; a comment has none. -/
def gist? (t : Token) : Option Gist :=
  match t.kind with
  | .comment => none
  | .declaration => some .declaration
  | kind => some (.other kind t.payload)

def gists (ts : List Token) : List Gist :=
  ts.filterMap gist?

/-! ## Tokens that are alike -/

/-- Two classified tokens of which the machine sees the same. -/
structure Alike (t u : Token) : Prop where
  left : t.Classified
  right : u.Classified
  gist : t.gist? = u.gist?

namespace Alike

variable {t u : Token}

theorem refl (h : t.Classified) : Alike t t :=
  ⟨h, h, rfl⟩

theorem kind_eq (h : Alike t u) : u.kind = t.kind := by
  have hgist := h.gist
  unfold gist? at hgist
  cases ht : t.kind <;> cases hu : u.kind <;> simp_all

theorem payload_eq (h : Alike t u) (hc : t.kind ≠ .comment) (hd : t.kind ≠ .declaration) :
    u.payload = t.payload := by
  have hgist := h.gist
  have hk := h.kind_eq
  unfold gist? at hgist
  cases ht : t.kind <;> simp_all

theorem name_eq (h : Alike t u) (hk : t.kind = .identifier) : u.name = t.name := by
  rw [name_of_identifier hk, name_of_identifier (h.kind_eq.trans hk),
    h.payload_eq (by rw [hk]; decide) (by rw [hk]; decide)]

theorem isCloser_eq (h : Alike t u) : u.isCloser = t.isCloser := by
  by_cases hquiet : t.kind = .comment ∨ t.kind = .declaration
  · rw [isCloser_eq_false h.left hquiet, isCloser_eq_false h.right (by rwa [h.kind_eq])]
  · by_cases hi : t.kind = .identifier
    · rw [isCloser, isCloser, isConstant_eq_of_kind_eq h.kind_eq, h.name_eq hi]
    · -- what is left are constants, and these close nothing
      have hc : t.isConstant = true := by
        cases hk : t.kind <;> simp_all [isConstant]
      simp [isCloser, isConstant_eq_of_kind_eq h.kind_eq, hc]

theorem wantsTop_eq (h : Alike t u) : u.wantsTop = t.wantsTop := by
  rw [wantsTop, wantsTop, h.isCloser_eq, h.kind_eq]

end Alike

/-- Two rows of classified tokens of which the machine sees the same. -/
structure AllAlike (ts us : List Token) : Prop where
  left : ∀ t ∈ ts, t.Classified
  right : ∀ u ∈ us, u.Classified
  gists : gists ts = gists us

namespace AllAlike

variable {ts us vs ws : List Token} {t u : Token}

theorem nil : AllAlike [] [] :=
  ⟨by simp, by simp, rfl⟩

theorem append (h : AllAlike ts us) (h' : AllAlike vs ws) : AllAlike (ts ++ vs) (us ++ ws) where
  left t ht := (List.mem_append.mp ht).elim (h.left t) (h'.left t)
  right u hu := (List.mem_append.mp hu).elim (h.right u) (h'.right u)
  gists := by
    have hfirst := h.gists
    have hsecond := h'.gists
    unfold Token.gists at hfirst hsecond ⊢
    rw [List.filterMap_append, List.filterMap_append, hfirst, hsecond]

theorem singleton (h : Alike t u) : AllAlike [t] [u] where
  left := by simpa using h.left
  right := by simpa using h.right
  gists := by simp [Token.gists, List.filterMap_cons, h.gist]

theorem comment_nil (h : t.Classified) (hk : t.kind = .comment) : AllAlike [t] [] where
  left := by simpa using h
  right := by simp
  gists := by simp [Token.gists, gist?, hk]

theorem symm (h : AllAlike ts us) : AllAlike us ts :=
  ⟨h.right, h.left, h.gists.symm⟩

end AllAlike

end Token

/-! ## States that are alike -/

/-- The same word of the machine, or compiled words of tokens that are alike. Operations of the
surrounding program are left out: they may look at whatever they want. -/
def Definition.Alike : Definition Op → Definition Op → Prop
  | .builtin b, .builtin c => b = c
  | .method m, .method n => m = n
  | .procedure ts, .procedure us => Token.AllAlike ts us
  | _, _ => False

/-- Two states of which the machine sees the same. -/
structure State.Alike (s r : State Op) : Prop where
  stack : r.stack = s.stack
  depth : r.depth = s.depth
  declarers : r.declarers = s.declarers
  buffer : Token.AllAlike s.buffer r.buffer
  dictionary : ∀ name, DefinitionsRelated Definition.Alike s r name

namespace State.Alike

variable {s r : State Op} {t u : Token}

theorem opens_eq (h : s.Alike r) (htu : Token.Alike t u) : r.opens u = s.opens t := by
  rw [opens, opens, htu.kind_eq, h.declarers]
  by_cases hk : t.kind = .identifier
  · rw [htu.name_eq hk]
  · simp [hk]

theorem depthBehind_eq (h : s.Alike r) (htu : Token.Alike t u) :
    r.depthBehind u = s.depthBehind t := by
  rw [depthBehind, depthBehind, h.depth, htu.isCloser_eq, h.opens_eq htu]

theorem top_eq (h : s.Alike r) : r.top = s.top := by
  rw [top, top, h.stack]

theorem compiled (h : s.Alike r) (htu : Token.Alike t u) : (s.compiled t).Alike (r.compiled u) where
  stack := by simp only [State.compiled, htu.isCloser_eq, h.stack]
  depth := h.depthBehind_eq htu
  declarers := by simp only [State.compiled, htu.kind_eq, h.declarers, h.top_eq]
  buffer := by
    simp only [State.compiled, htu.isCloser_eq, h.depth, h.depthBehind_eq htu]
    refine .append ?_ ?_
    · split
      · exact .nil
      · exact h.buffer
    · split
      · exact .singleton htu
      · exact .nil
  dictionary := by
    intro name
    unfold DefinitionsRelated
    simp only [State.compiled, htu.isCloser_eq, h.top_eq]
    by_cases hc : t.isCloser = true
    · simp only [hc, if_true]
      exact (h.dictionary name).insert s.top h.buffer
    · simp only [hc]
      exact h.dictionary name

theorem keep_left (h : s.Alike r) (ht : t.Classified) (hk : t.kind = .comment) :
    Alike { s with buffer := s.buffer ++ [t] } r := by
  refine ⟨h.stack, h.depth, h.declarers, ?_, h.dictionary⟩
  simpa using h.buffer.append (.comment_nil ht hk)

theorem keep_right (h : s.Alike r) (hu : u.Classified) (hk : u.kind = .comment) :
    Alike s { r with buffer := r.buffer ++ [u] } := by
  refine ⟨h.stack, h.depth, h.declarers, ?_, h.dictionary⟩
  simpa using h.buffer.append (Token.AllAlike.comment_nil hu hk).symm

end State.Alike

/-! ## Likeness is a simulation -/

theorem sameStack_alike : SameStack (@State.Alike Op) where
  stack h := h.stack
  restack _ h := ⟨rfl, h.depth, h.declarers, h.buffer, h.dictionary⟩

theorem tokensRelated_alike : TokensRelated Token.Alike where
  kind h := h.kind_eq
  payload h := h.payload_eq
  classified h := .refl ⟨_, h⟩
  identifier _ _ := trivial
  text _ := trivial

theorem simulation_alike :
    Simulation (fun _ => False) (@State.Alike Op) Token.Alike where
  toTokensRelated := tokensRelated_alike
  depth h := h.depth
  declarers h _ := by rw [h.declarers]
  enter h := ⟨h.stack, congrArg (· + 1) h.depth, h.declarers, h.buffer, h.dictionary⟩
  push := sameStack_alike.push
  pop := sameStack_alike.pop
  compile h htu _ := sameStack_alike.compile h htu.wantsTop_eq (h.compiled htu)

/-! ## Comments on one side -/

section Comments

variable {call : Act.Call Op} {t : Token} (ht : t.Classified) (hk : t.kind = .comment)
include ht hk

/-- A comment is kept inside a unit, and does nothing outside of one. -/
theorem Act.runToken_comment (s : State Op) :
    runToken call t s =
      ⟨.ok (), if 0 < s.depth then { s with buffer := s.buffer ++ [t] } else s, "", []⟩ := by
  by_cases hd : 0 < s.depth
  · have hinert : s.Inert t :=
      ⟨by rw [hk]; decide, Token.isCloser_eq_false ht (.inl hk), by simp [State.opens, hk]⟩
    rw [runToken_of_compiling hd, compile_of_inert hinert hd, if_pos hd]
  · rw [runToken_of_executing (by omega), if_neg hd, obey,
      if_neg (by simp [Token.isConstant, hk]), if_pos hk]
    rfl

theorem Act.comment_left : Simulated (fun _ => False) State.Alike (runToken call t) (pure ()) := by
  intro s r h _
  rw [runToken_comment ht hk]
  refine ⟨rfl, rfl, ?_⟩
  split
  · exact h.keep_left ht hk
  · exact h

theorem Act.comment_right :
    Simulated (fun _ => False) State.Alike (pure ()) (runToken call t) := by
  intro s r h _
  rw [runToken_comment ht hk]
  refine ⟨rfl, rfl, ?_⟩
  split
  · exact h.keep_right ht hk
  · exact h

end Comments

theorem Token.gist?_eq_none_iff {t : Token} : t.gist? = none ↔ t.kind = .comment := by
  unfold gist?
  cases t.kind <;> simp

section Interpret

variable {call call' : Act.Call Op}

theorem Act.comments_right {us : List Token} (hc : ∀ u ∈ us, u.Classified)
    (h : ∀ u ∈ us, u.gist? = none) :
    Simulated (fun _ => False) State.Alike (pure ()) (interpret call us) := by
  induction us with
  | nil => exact .pure ()
  | cons u us ih =>
    have hfirst : Simulated (fun _ => False) State.Alike (pure ()) (runToken call u) :=
      comment_right (hc u (by simp)) (Token.gist?_eq_none_iff.mp (h u (by simp)))
    have hrest := ih (fun v hv => hc v (by simp [hv])) fun v hv => h v (by simp [hv])
    have hboth := hfirst.bind fun _ => hrest
    rwa [pure_bind] at hboth

theorem Act.interpret_simulated (hcall : CallsSimulated (fun _ => False) State.Alike call call')
    {ts us : List Token} (h : Token.AllAlike ts us) :
    Simulated (fun _ => False) State.Alike (interpret call ts) (interpret call' us) := by
  -- on the left row; the right one is cut behind the token that answers the first of the left
  induction ts generalizing us with
  | nil => exact comments_right h.right (List.filterMap_eq_nil_iff.mp h.gists.symm)
  | cons t ts ih =>
    have ht : t.Classified := h.left t (by simp)
    have hts : ∀ v ∈ ts, v.Classified := fun v hv => h.left v (by simp [hv])
    cases hg : t.gist? with
    | none =>
      -- a comment is run while the other side waits
      have hrest : Token.AllAlike ts us :=
        ⟨hts, h.right, by rw [← h.gists, Token.gists, Token.gists, List.filterMap_cons_none hg]⟩
      have hfirst : Simulated (fun _ => False) State.Alike (runToken call t) (pure ()) :=
        comment_left ht (Token.gist?_eq_none_iff.mp hg)
      have hboth := hfirst.bind fun _ => ih hrest
      rwa [pure_bind] at hboth
    | some g =>
      -- behind some comments the other side has a token of the same gist
      have hgists : us.filterMap Token.gist? = g :: ts.filterMap Token.gist? := by
        rw [← List.filterMap_cons_some hg]
        exact h.gists.symm
      obtain ⟨before, u, later, rfl, hbefore, hu, hlater⟩ := List.filterMap_eq_cons_iff.mp hgists
      have htu : Token.Alike t u := ⟨ht, h.right u (by simp), hg.trans hu.symm⟩
      have hrest : Token.AllAlike ts later :=
        ⟨hts, fun v hv => h.right v (by simp [hv]), hlater.symm⟩
      have hskip : Simulated (fun _ => False) State.Alike (pure ()) (interpret call' before) :=
        comments_right (fun v hv => h.right v (by simp [hv])) hbefore
      have hboth := hskip.bind fun _ =>
        (simulation_alike.runToken hcall htu).bind fun _ => ih hrest
      rw [pure_bind] at hboth
      rw [interpret_append]
      exact hboth

end Interpret

namespace World

theorem perform_alike (w : World Op) {call call' : Act.Call Op}
    (hcall : Act.CallsSimulated (fun _ => False) State.Alike call call') {d d' : Definition Op}
    (h : d.Alike d') :
    Act.Simulated (fun _ => False) State.Alike (w.perform call d) (w.perform call' d') := by
  cases d <;> cases d' <;> try exact h.elim
  case builtin.builtin b c =>
    obtain rfl : b = c := h
    exact sameStack_alike.builtin simulation_alike hcall w.files b
  case method.method m n =>
    obtain rfl : m = n := h
    exact simulation_alike.method m
  case procedure.procedure ts us => exact Act.interpret_simulated hcall h

theorem execute_alike (w : World Op) (limit : Nat) :
    Act.CallsSimulated (fun _ => False) State.Alike (w.execute limit) (w.execute limit) :=
  w.execute_simulated (fun h name _ => h.dictionary name) (fun hcall _ _ => w.perform_alike hcall) limit

/-- **Only the gists of tokens matter.** Two rows of classified tokens with the same gists, run from
states that are alike, come to the same end after the same output, and to states that are alike. -/
theorem interpret_alike_of_gists (w : World Op) (limit : Nat) {ts us : List Token} {s r : State Op}
    (h : Token.AllAlike ts us) (hs : s.Alike r) :
    (Act.interpret (w.execute limit) us r).result = (Act.interpret (w.execute limit) ts s).result ∧
      (Act.interpret (w.execute limit) us r).output =
        (Act.interpret (w.execute limit) ts s).output ∧
      (Act.interpret (w.execute limit) ts s).state.Alike
        (Act.interpret (w.execute limit) us r).state :=
  Act.interpret_simulated (w.execute_alike limit) h s r hs fun _ _ => id

/-- The word 数 is defined as 42 and called; the number is written in full-width digits and comes with a
comment. -/
def definedWithComment : List Token :=
  [⟨.literal, .text "数", "「数」"⟩, ⟨.declaration, .text "とは", "とは"⟩,
   ⟨.comment, .text "※注※", "※注※"⟩, ⟨.number, .int 42, "４２"⟩, .identifier "です",
   .identifier "数"]

/-- The same with another declaration, an open literal and plain digits. -/
def definedPlainly : List Token :=
  [⟨.literal, .text "数", "「数"⟩, ⟨.declaration, .text "名前は", "名前は"⟩, ⟨.number, .int 42, "42"⟩,
   .identifier "です", .identifier "数"]

theorem interpret_alike_of_gists_defined :
    Token.AllAlike definedWithComment definedPlainly ∧
      (State.new : State Empty).Alike .new ∧
      (Act.interpret ((ofFiles fun _ => .error .notFound).execute callLimit) definedWithComment
        .new).state.stack = [.int 42] ∧
      (Act.interpret ((ofFiles fun _ => .error .notFound).execute callLimit) definedWithComment
        .new).state.Alike
          (Act.interpret ((ofFiles fun _ => .error .notFound).execute callLimit) definedPlainly
            .new).state := by
  have hraw : ∀ t ∈ definedWithComment ++ definedPlainly, Token.classify t.raw = .ok t := by
    decide +kernel
  have hclassified : ∀ t ∈ definedWithComment ++ definedPlainly, t.Classified :=
    fun t ht => ⟨t.raw, hraw t ht⟩
  have htokens : Token.AllAlike definedWithComment definedPlainly :=
    ⟨fun t ht => hclassified t (by simp [ht]), fun t ht => hclassified t (by simp [ht]), by decide⟩
  have hnew : (State.new : State Empty).Alike .new :=
    ⟨rfl, rfl, rfl, .nil, fun name => .inl (by simp [State.new])⟩
  obtain ⟨-, -, hend⟩ :=
    interpret_alike_of_gists (ofFiles fun _ => .error .notFound) callLimit htokens hnew
  exact ⟨htokens, hnew, by decide +kernel, hend⟩

end World

end WordMachine
