import WordMachine.Host
import WordMachine.Proofs.CallDepth

/-!
# Hosts that have room

A machine on a host does what `World.execute` does, as long as it finds room. The acts of a `Room` are those of
the machine with a question before each spot, and a question that is answered with yes is no act at all. So
these acts agree with the machine's own unless they end as badly as a question that is answered with no
(`Room.Grants`), and this passes through calls by induction on the limit (`World.executeOn_agreesUnless`).

Two cases matter (`World.executeOn_eq_execute`). A host that has room everywhere changes nothing (`Host.Roomy`).
On any other host a run that does not fail for want of room is the run of a machine that has it; the failure is
that of exceeding the call depth, or the fault of a name too long to be shown (`Failure.MayExceed`).
-/

namespace WordMachine

variable {Op α : Type}

/-- Whether an act may have ended for want of room. -/
def Outcome.OutOfRoom (o : Outcome Op α) : Prop :=
  ∃ e, o.result = .error e ∧ e.MayExceed

theorem Outcome.not_outOfRoom_of_ok {o : Outcome Op α} {a : α} (h : o.result = .ok a) :
    ¬ o.OutOfRoom := by
  rintro ⟨e, he, -⟩
  rw [h] at he
  cases he

theorem Act.AgreesUnless.after {bad : Failure → Prop} {m : Act Op Unit}
    (hm : AgreesUnless bad m (pure ())) {k k' : Act Op α} (hk : AgreesUnless bad k k') :
    AgreesUnless bad (do m; k) k' := by
  have h := bind hm fun _ => hk
  rwa [pure_bind] at h

namespace Room

/-- A room that is asked in vain only with a bad failure. -/
def Grants (Op : Type) (bad : Failure → Prop) (room : Room) : Prop :=
  ∀ spot, Act.AgreesUnless bad (room.take spot : Act Op Unit) (pure ())

theorem grants_of_has {bad : Failure → Prop} {room : Room} (h : ∀ spot, room.has spot = true) :
    room.Grants Op bad := by
  intro spot
  rw [take, if_pos (h spot)]
  exact .refl _

theorem grants_mayExceed (room : Room) : room.Grants Op Failure.MayExceed := by
  intro spot
  unfold take
  split
  · exact .refl _
  · exact .of_bad (Act.exists_mayExceed room.word)

section Agreement

variable {bad : Failure → Prop} {room : Room} (h : room.Grants Op bad)
include h

theorem note_agreesUnless (n : Note) :
    Act.AgreesUnless bad (room.note n : Act Op Unit) (Act.note n) :=
  .after (h _) (.refl _)

theorem define_agreesUnless (name : Value) (tokens : List Token) :
    Act.AgreesUnless bad (room.define name tokens : Act Op Unit) (Act.define name tokens) :=
  .bind (note_agreesUnless h _) fun _ => .refl _

theorem declareTop_agreesUnless (t : Token) :
    Act.AgreesUnless bad (room.declareTop t : Act Op Unit) (Act.declareTop t) := by
  unfold declareTop Act.declareTop
  split
  · exact .bind_left _ fun name => .bind (note_agreesUnless h _) fun _ => .refl _
  · exact .refl _

theorem closeUnit_agreesUnless (t : Token) :
    Act.AgreesUnless bad (room.closeUnit t : Act Op Unit) (Act.closeUnit t) := by
  unfold closeUnit Act.closeUnit
  split
  · refine .bind_left _ fun name => .bind_left _ fun _ => .bind_left _ fun s => ?_
    exact .bind (define_agreesUnless h _ _) fun _ => .refl _
  · exact .refl _

theorem compile_agreesUnless (t : Token) :
    Act.AgreesUnless bad (room.compile t : Act Op Unit) (Act.compile t) :=
  .bind (declareTop_agreesUnless h t) fun _ => .bind (closeUnit_agreesUnless h t) fun _ => .refl _

variable {call call' : Act.Call Op} (hcall : ∀ t, Act.AgreesUnless bad (call t) (call' t))
include hcall

theorem obey_agreesUnless (t : Token) :
    Act.AgreesUnless bad (room.obey call t) (Act.obey call' t) := by
  unfold obey Act.obey
  split
  · exact .refl _
  · split
    · exact .refl _
    · refine .bind_left _ fun s => ?_
      split
      · exact .bind_left _ fun _ => note_agreesUnless h _
      · exact hcall t

theorem runToken_agreesUnless (t : Token) :
    Act.AgreesUnless bad (room.runToken call t) (Act.runToken call' t) := by
  refine .after (h _) (.bind_left _ fun s => ?_)
  split
  · exact compile_agreesUnless h t
  · exact obey_agreesUnless h hcall t

theorem interpret_agreesUnless (ts : List Token) :
    Act.AgreesUnless bad (room.interpret call ts) (Act.interpret call' ts) := by
  induction ts with
  | nil => exact .refl _
  | cons t ts ih => exact .bind (runToken_agreesUnless h hcall t) fun _ => ih

theorem runWords_agreesUnless (ws : List Word) :
    Act.AgreesUnless bad (room.runWords call ws) (Act.runWords call' ws) := by
  induction ws with
  | nil => exact .refl _
  | cons w ws ih =>
    exact .bind_left _ fun t => .bind (runToken_agreesUnless h hcall t) fun _ => ih

theorem builtin_agreesUnless (files : Files) (b : Builtin) :
    Act.AgreesUnless bad (room.builtin files call b) (b.execute files call') := by
  cases b with
  | load encoding =>
    exact .bind_left _ fun path => .bind (note_agreesUnless h _) fun _ => .bind_left _ fun text =>
      runWords_agreesUnless h hcall _
  | _ => exact Builtin.execute_agreesUnless files hcall _

end Agreement

/-! ## Room without end -/

/-- A room without end. Nothing fails there, so it does not matter whose it is. -/
def ample : Room :=
  ⟨Token.identifier "", fun _ => true⟩

theorem grants_ample : ample.Grants Op fun _ => False :=
  grants_of_has fun _ => rfl

section Ample

variable (call : Act.Call Op)

theorem runToken_ample (t : Token) : ample.runToken call t = Act.runToken call t := by
  funext s
  exact (runToken_agreesUnless grants_ample (fun _ => .refl _) t s fun _ _ => id).symm

theorem interpret_ample (ts : List Token) : ample.interpret call ts = Act.interpret call ts := by
  funext s
  exact (interpret_agreesUnless grants_ample (fun _ => .refl _) ts s fun _ _ => id).symm

theorem runWords_ample (ws : List Word) : ample.runWords call ws = Act.runWords call ws := by
  funext s
  exact (runWords_agreesUnless grants_ample (fun _ => .refl _) ws s fun _ _ => id).symm

end Ample

end Room

/-- A host that has room everywhere. -/
def Host.Roomy (host : Host Op) : Prop :=
  ∀ words spot, host words spot = true

/-- A host that has room wherever a definition is to be noted. -/
def Host.RoomToDefine (host : Host Op) : Prop :=
  ∀ words name tokens, host words (.note (.defining name tokens)) = true

/-- A host that has no room only with a bad failure. -/
def Host.Grants (host : Host Op) (bad : Failure → Prop) : Prop :=
  ∀ words word, (Room.mk word (host words)).Grants Op bad

theorem Host.Roomy.grants {host : Host Op} (h : host.Roomy) {bad : Failure → Prop} : host.Grants bad :=
  fun words _ => Room.grants_of_has (h words)

theorem Host.grants_mayExceed (host : Host Op) : host.Grants Failure.MayExceed :=
  fun _ _ => Room.grants_mayExceed _

namespace World

variable {w : World Op} {host : Host Op} {bad : Failure → Prop}

theorem performIn_agreesUnless {room : Room} (h : room.Grants Op bad) {call call' : Act.Call Op}
    (hcall : ∀ t, Act.AgreesUnless bad (call t) (call' t)) (d : Definition Op) :
    Act.AgreesUnless bad (w.performIn room call d) (w.perform call' d) := by
  cases d with
  | builtin b => exact Room.builtin_agreesUnless h hcall w.files b
  | procedure tokens => exact Room.interpret_agreesUnless h hcall tokens
  | method m => exact .refl _
  | custom op => exact .refl _

section Lookup

variable {t : Token} {s : State Op} {d : Definition Op}

theorem executeOn_apply_of_none (h : s.dictionary[t.name]? = none) (limit : Nat)
    (words : List (Definition Op)) : w.executeOn host limit words t s = w.execute limit t s := by
  rw [executeOn.eq_def, Act.get_bind_apply, h, execute_apply_of_none h]

theorem executeOn_zero_apply (h : s.dictionary[t.name]? = some d) (words : List (Definition Op)) :
    w.executeOn host 0 words t s = Act.exceed t s := by
  rw [executeOn, Act.get_bind_apply, h]

theorem executeOn_succ_apply (h : s.dictionary[t.name]? = some d) (limit : Nat)
    (words : List (Definition Op)) :
    w.executeOn host (limit + 1) words t s =
      w.performIn ⟨t, host (d :: words)⟩ (w.executeOn host limit (d :: words)) d s := by
  rw [executeOn, Act.get_bind_apply, h]

end Lookup

/-- Executing a word on a host comes to what it comes to without one. -/
theorem executeOn_agreesUnless (h : host.Grants bad) (limit : Nat) (words : List (Definition Op))
    (t : Token) : Act.AgreesUnless bad (w.executeOn host limit words t) (w.execute limit t) := by
  induction limit generalizing words t with
  | zero =>
    intro s _
    cases hd : s.dictionary[t.name]? with
    | none => rw [executeOn_apply_of_none hd]
    | some d => rw [executeOn_zero_apply hd, execute_zero_apply hd]
  | succ limit ih =>
    intro s hs
    cases hd : s.dictionary[t.name]? with
    | none => rw [executeOn_apply_of_none hd]
    | some d =>
      rw [executeOn_succ_apply hd] at hs ⊢
      rw [execute_succ_apply hd]
      exact performIn_agreesUnless (h _ t) (ih _) d s hs

/-- A host that has room everywhere, or has it for all that is done, makes no difference. -/
theorem executeOn_eq_execute {limit : Nat} {words : List (Definition Op)} {t : Token} {s : State Op}
    (h : host.Roomy ∨ ¬ (w.executeOn host limit words t s).OutOfRoom) :
    w.executeOn host limit words t s = w.execute limit t s := by
  rcases h with hroomy | hends
  · have hgrants : host.Grants fun _ => False := hroomy.grants
    exact (executeOn_agreesUnless hgrants limit words t s fun _ _ => id).symm
  · refine (executeOn_agreesUnless host.grants_mayExceed limit words t s fun e he hroom => ?_).symm
    exact hends ⟨e, he, hroom⟩

end World

end WordMachine
