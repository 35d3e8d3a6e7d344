import Mathlib.Data.List.Basic
import WordMachine.Proofs.OpenUnits
import WordMachine.Proofs.Reachable

/-!
# Units that are torn

The buffer belongs to the open units: it is empty as long as no unit is open (`State.Consistent`), and a token
that fails while it is compiled changes nothing. There is one exception to both. A closer takes the name off the
stack and closes the unit before it asks for room to note the definition, and only then stores the word and
empties the buffer. Where the host runs short just there, the unit is torn (`State.torn`): it is closed and its
name is gone, but its tokens stay in the buffer and go into the word that is defined next.

So compiling a token inside a word has one end more than compiling it where there is room
(`Room.compile_cases`), and all other spots are harmless: on a host that always has room to note a definition
runs keep the state consistent wherever they run short (`Act.KeepsUnits`, with a rule for doing one act after the
other, and by induction on the limit of nested calls). On any other host a run that does not fail for want of
room is the run of a machine that has it (`World.executeOn_agreesUnless`), which keeps its units too.
-/

namespace WordMachine

variable {Op α β : Type}

/-- The state that a closer leaves if there is no room to note the definition. The name is taken and the unit
closed, the word is not stored and the buffer is as it was. A closer that is a declaration has made its declarer
before. -/
def State.torn (s : State Op) (t : Token) : State Op :=
  { s with
    stack := s.stack.tail
    depth := s.depth - 1
    declarers := if t.kind = .declaration then s.declarers.insert s.top else s.declarers }

/-! ## One token -/

namespace Room

variable (room : Room) (t : Token) (s : State Op)

theorem take_cases (spot : Spot) :
    (room.has spot = true ∧ (room.take spot : Act Op Unit) = pure ()) ∨
      room.has spot = false ∧ ∃ e, room.take spot s = ⟨.error e, s, "", []⟩ ∧ e.MayExceed := by
  unfold take
  cases room.has spot with
  | true => exact .inl ⟨rfl, rfl⟩
  | false => exact .inr ⟨rfl, Act.exceed_apply room.word s⟩

theorem note_cases (n : Note) :
    (room.note n : Act Op Unit) = Act.note n ∨
      room.has (.note n) = false ∧ ∃ e, room.note n s = ⟨.error e, s, "", []⟩ ∧ e.MayExceed := by
  unfold note
  rcases room.take_cases s (.note n) with ⟨-, htake⟩ | ⟨hhas, e, he, hroom⟩
  · rw [htake, pure_bind]
    exact .inl rfl
  · exact .inr ⟨hhas, e, Act.bind_apply_error he, hroom⟩

theorem declareTop_cases :
    room.declareTop t s = Act.declareTop t s ∨
      ∃ e, room.declareTop t s = ⟨.error e, s, "", []⟩ ∧ e.MayExceed := by
  unfold declareTop Act.declareTop
  by_cases hd : t.kind = .declaration
  · rw [if_pos hd, if_pos hd]
    cases hs : s.stack with
    | nil =>
      rw [Act.bind_apply_error (Act.peek_apply_of_nil hs), Act.bind_apply_error (Act.peek_apply_of_nil hs)]
      exact .inl rfl
    | cons v vs =>
      rw [Act.bind_apply_ok (Act.peek_apply_of_cons hs), Act.bind_apply_ok (Act.peek_apply_of_cons hs),
        Outcome.behind_nil, Outcome.behind_nil]
      rcases room.note_cases s (.declarer v) with hnote | ⟨-, e, he, hroom⟩
      · rw [hnote]
        exact .inl rfl
      · exact .inr ⟨e, Act.bind_apply_error he, hroom⟩
  · rw [if_neg hd, if_neg hd]
    exact .inl rfl

/-- A closer asks for room behind the name and the unit, and before the word. -/
theorem closeUnit_cases :
    room.closeUnit t s = Act.closeUnit t s ∨
      (t.isCloser = true ∧ s.stack ≠ [] ∧ room.has (.note (.defining s.top s.buffer.length)) = false ∧
        ∃ e, e.MayExceed ∧
          room.closeUnit t s = ⟨.error e, { s with stack := s.stack.tail, depth := s.depth - 1 }, "", []⟩) := by
  unfold closeUnit Act.closeUnit
  by_cases hc : t.isCloser = true
  · rw [if_pos hc, if_pos hc]
    cases hs : s.stack with
    | nil =>
      rw [Act.bind_apply_error (Act.pop_apply_of_nil hs), Act.bind_apply_error (Act.pop_apply_of_nil hs)]
      exact .inl rfl
    | cons v vs =>
      rw [Act.bind_apply_ok (Act.pop_apply_of_cons hs), Act.bind_apply_ok (Act.pop_apply_of_cons hs),
        Outcome.behind_nil, Outcome.behind_nil, Act.modify_bind_apply, Act.modify_bind_apply,
        Act.get_bind_apply, Act.get_bind_apply, define, Act.define, State.top_of_cons hs]
      rcases room.note_cases { s with stack := vs, depth := s.depth - 1 } (.defining v s.buffer.length) with
        hnote | ⟨hhas, e, he, hroom⟩
      · rw [hnote]
        exact .inl rfl
      · exact .inr ⟨hc, by simp, hhas, e, hroom, Act.bind_apply_error (Act.bind_apply_error he)⟩
  · rw [if_neg hc, if_neg hc]
    exact .inl rfl

/-- Compiling a token goes as it does where there is room, or it fails for want of it: before the token has done
anything, or in the middle of closing a unit. -/
theorem compile_cases :
    room.compile t s = Act.compile t s ∨
      ∃ e, (room.compile t s).result = .error e ∧ e.MayExceed ∧
        ((room.compile t s).state = s ∨
          (t.isCloser = true ∧ s.stack ≠ [] ∧
            room.has (.note (.defining s.top s.buffer.length)) = false ∧
            (room.compile t s).state = s.torn t)) := by
  rw [compile, Act.compile]
  rcases room.declareTop_cases t s with hdeclare | ⟨e, he, hroom⟩
  · rw [Act.bind_apply_congr hdeclare]
    by_cases hfails : t.kind = .declaration ∧ s.stack = []
    · have hnil := Act.declareTop_apply_of_nil hfails.1 hfails.2
      rw [Act.bind_apply_error hnil, Act.bind_apply_error hnil]
      exact .inl rfl
    · have hok := Act.declareTop_apply fun hk hs => hfails ⟨hk, hs⟩
      rw [Act.bind_apply_ok hok, Act.bind_apply_ok hok]
      rcases room.closeUnit_cases t { s with
          declarers := if t.kind = .declaration then s.declarers.insert s.top else s.declarers } with
        hclose | ⟨hc, hs, hhas, e, hroom, he⟩
      · rw [Act.bind_apply_congr hclose]
        exact .inl rfl
      · rw [Act.bind_apply_error he]
        exact .inr ⟨e, rfl, hroom, .inr ⟨hc, hs, hhas, rfl⟩⟩
  · rw [Act.bind_apply_error he]
    exact .inr ⟨e, rfl, hroom, .inl rfl⟩

variable (call : Act.Call Op)

theorem runToken_of_compiling (hd : 0 < s.depth) :
    room.runToken call t s = room.compile t s ∨
      ∃ e, room.runToken call t s = ⟨.error e, s, "", []⟩ ∧ e.MayExceed := by
  unfold runToken
  rcases room.take_cases s (.token t) with ⟨-, htake⟩ | ⟨-, e, he, hroom⟩
  · rw [htake, pure_bind, Act.get_bind_apply, if_pos hd]
    exact .inl rfl
  · exact .inr ⟨e, Act.bind_apply_error he, hroom⟩

variable {room t s call}

/-- A token that fails while it is compiled changes nothing, or it is a closer that tears its unit. -/
theorem state_of_runToken_error (hd : 0 < s.depth) {e : Failure}
    (he : (room.runToken call t s).result = .error e) :
    (room.runToken call t s).state = s ∨
      (e.MayExceed ∧ t.isCloser = true ∧ s.stack ≠ [] ∧
        room.has (.note (.defining s.top s.buffer.length)) = false ∧
        (room.runToken call t s).state = s.torn t) := by
  rcases room.runToken_of_compiling t s call hd with hrun | ⟨e', he', -⟩
  · rw [hrun] at he ⊢
    rcases room.compile_cases t s with hplain | ⟨e', he', hroom, hstate⟩
    · rw [hplain] at he ⊢
      rcases Act.compile_cases t s with hfail | hok
      · rw [hfail]
        exact .inl rfl
      · rw [hok] at he
        cases he
    · rw [he'] at he
      cases he
      rcases hstate with hsame | ⟨hc, hs, hhas, htorn⟩
      · exact .inl hsame
      · exact .inr ⟨hroom, hc, hs, hhas, htorn⟩
  · rw [he']
    exact .inl rfl

/-- A token that does not fail does what it does where there is room. -/
theorem depth_of_runToken_ok (hd : 0 < s.depth) (h : (room.runToken call t s).result = .ok ()) :
    ((room.runToken call t s).state.depth : Int) =
      s.depth - (if t.isCloser then 1 else 0) + (if s.opens t then 1 else 0) := by
  have hsame : Act.runToken call t s = room.runToken call t s := by
    refine runToken_agreesUnless (grants_mayExceed room) (fun _ => .refl _) t s fun e he => ?_
    rw [h] at he
    cases he
  rw [← hsame] at h ⊢
  exact Act.depth_of_runToken_ok hd h

end Room

/-! ## Whole runs -/

/-- From every consistent state the act comes to a consistent one, whether it fails or not. -/
def Act.KeepsUnits (m : Act Op α) : Prop :=
  ∀ s, s.Consistent → (m s).state.Consistent

theorem State.Consistent.of_compiling {s : State Op} (hd : 0 < s.depth) : s.Consistent := by
  intro hzero
  omega

namespace Act.KeepsUnits

theorem pure (a : α) : KeepsUnits (pure a : Act Op α) :=
  fun _ hs => hs

theorem of_simulated {m : Act Op α} (h : Simulated (fun _ => False) State.SelfConsistent m m) :
    KeepsUnits m :=
  fun _ hs => h.consistent hs

theorem get_bind {f : State Op → Act Op α} (h : ∀ s, s.Consistent → (f s s).state.Consistent) :
    KeepsUnits (get >>= f) := by
  intro s hs
  rw [get_bind_apply]
  exact h s hs

theorem bind {m : Act Op α} {f : α → Act Op β} (hm : KeepsUnits m) (hf : ∀ a, KeepsUnits (f a)) :
    KeepsUnits (m >>= f) := by
  intro s hs
  cases hr : (m s).result with
  | ok a =>
    rw [bind_apply_of_ok hr]
    exact hf a _ (hm s hs)
  | error e =>
    rw [bind_apply_of_error hr]
    exact hm s hs

end Act.KeepsUnits

namespace Room

variable (room : Room)

theorem take_keepsUnits (spot : Spot) : Act.KeepsUnits (room.take spot : Act Op Unit) := by
  intro s hs
  rcases room.take_cases s spot with ⟨-, htake⟩ | ⟨-, e, he, -⟩
  · rw [htake]
    exact hs
  · rw [he]
    exact hs

theorem note_keepsUnits (n : Note) : Act.KeepsUnits (room.note n : Act Op Unit) :=
  .bind (room.take_keepsUnits _) fun _ _ hs => hs

variable {room} (hdefine : ∀ name tokens, room.has (.note (.defining name tokens)) = true)
include hdefine

/-- With room for the definition, a token that finds none elsewhere has not done anything yet. -/
theorem consistent_compile (t : Token) {s : State Op} (hd : 0 < s.depth) :
    (room.compile t s).state.Consistent := by
  rcases room.compile_cases t s with hplain | ⟨e, he, hroom, hsame | ⟨hc, hs, hhas, htorn⟩⟩
  · rw [hplain]
    exact invariant_consistent.state_compile t hd (.of_compiling hd)
  · rw [hsame]
    exact .of_compiling hd
  · rw [hdefine] at hhas
    cases hhas

variable {call : Act.Call Op} (hcall : ∀ t, Act.KeepsUnits (call t))
include hcall

omit hdefine in
theorem obey_keepsUnits (t : Token) : Act.KeepsUnits (room.obey call t) := by
  unfold obey
  split
  · exact fun _ hs => hs
  · split
    · exact .pure ()
    · refine .get_bind fun s hs => ?_
      split
      · exact Act.KeepsUnits.bind (fun s _ => .of_compiling s.depth.succ_pos)
          (fun _ => room.note_keepsUnits _) s hs
      · exact hcall t s hs

theorem runToken_keepsUnits (t : Token) : Act.KeepsUnits (room.runToken call t) := by
  refine .bind (room.take_keepsUnits _) fun _ => .get_bind fun s hs => ?_
  split
  · exact consistent_compile hdefine t ‹_›
  · exact obey_keepsUnits hcall t s hs

theorem interpret_keepsUnits (ts : List Token) : Act.KeepsUnits (room.interpret call ts) := by
  induction ts with
  | nil => exact .pure ()
  | cons t ts ih => exact .bind (runToken_keepsUnits hdefine hcall t) fun _ => ih

theorem runWords_keepsUnits (ws : List Word) : Act.KeepsUnits (room.runWords call ws) := by
  induction ws with
  | nil => exact .pure ()
  | cons w ws ih =>
    exact .bind (.of_simulated (.orFault _)) fun t =>
      .bind (runToken_keepsUnits hdefine hcall t) fun _ => ih

theorem builtin_keepsUnits (files : Files) (b : Builtin) :
    Act.KeepsUnits (room.builtin files call b) := by
  have hpop : Act.KeepsUnits (Builtin.popString : Act Op String) :=
    .of_simulated simulation_selfConsistent.popString
  -- all of them but two make no calls, so it does not matter how calls would go
  have hidle (b : Builtin) : Act.KeepsUnits (b.execute files fun _ : Token => (pure () : Act Op Unit)) :=
    .of_simulated (sameStack_selfConsistent.builtin simulation_selfConsistent (fun _ _ _ _ => .pure ()) files b)
  cases b with
  | perform => exact .bind hpop fun name => hcall _
  | load encoding =>
    exact .bind hpop fun path => .bind (room.note_keepsUnits _) fun _ =>
      .bind (.of_simulated (.ofExcept _)) fun text => runWords_keepsUnits hdefine hcall _
  | write => exact hidle .write
  | newline => exact hidle .newline
  | depth => exact hidle .depth
  | copyBottom => exact hidle .copyBottom
  | negateBottom => exact hidle .negateBottom
  | join => exact hidle .join
  | isZero => exact hidle .isZero
  | add => exact hidle .add

end Room

namespace World

variable {w : World Op} {host : Host Op} (hnative : ∀ op, (w.custom op).LeavesUnits)
include hnative

theorem execute_keepsUnits (limit : Nat) (t : Token) : Act.KeepsUnits (w.execute limit t) :=
  .of_simulated (execute_selfConsistent hnative limit t t trivial rfl)

theorem performIn_keepsUnits {room : Room}
    (hdefine : ∀ name tokens, room.has (.note (.defining name tokens)) = true) {call : Act.Call Op}
    (hcall : ∀ t, Act.KeepsUnits (call t)) (d : Definition Op) :
    Act.KeepsUnits (w.performIn room call d) := by
  cases d with
  | builtin b => exact Room.builtin_keepsUnits hdefine hcall w.files b
  | procedure tokens => exact Room.interpret_keepsUnits hdefine hcall tokens
  | method m => exact .of_simulated (simulation_selfConsistent.method m)
  | custom op => exact fun s hs => (hnative op).consistent hs

theorem executeOn_keepsUnits (hdefine : host.RoomToDefine) (limit : Nat) (words : List (Definition Op))
    (t : Token) : Act.KeepsUnits (w.executeOn host limit words t) := by
  induction limit generalizing words t with
  | zero =>
    intro s hs
    cases hd : s.dictionary[t.name]? with
    | none =>
      rw [executeOn_apply_of_none hd]
      exact execute_keepsUnits hnative 0 t s hs
    | some d =>
      obtain ⟨e, he, -⟩ := Act.exceed_apply t s
      rw [executeOn_zero_apply hd, he]
      exact hs
  | succ limit ih =>
    intro s hs
    cases hd : s.dictionary[t.name]? with
    | none =>
      rw [executeOn_apply_of_none hd]
      exact execute_keepsUnits hnative (limit + 1) t s hs
    | some d =>
      rw [executeOn_succ_apply hd]
      exact performIn_keepsUnits hnative (hdefine _) (ih _) d s hs

/-- A run that makes its calls on a host keeps the state consistent, if the host has room for every definition
or the run does not end for want of room. -/
theorem consistent_of_calls {run : Act.Call Op → Act Op Unit} (hrespects : Act.RespectsCalls run)
    (hkeeps : ∀ call, (∀ t, Act.KeepsUnits (call t)) → Act.KeepsUnits (run call)) {limit : Nat}
    {s : State Op} (h : host.RoomToDefine ∨ ¬ (run (w.executeOn host limit []) s).OutOfRoom)
    (hs : s.Consistent) : (run (w.executeOn host limit []) s).state.Consistent := by
  rcases h with hdefine | hends
  · exact hkeeps _ (executeOn_keepsUnits hnative hdefine limit []) s hs
  · have hcalls := executeOn_agreesUnless (w := w) host.grants_mayExceed limit []
    have hsame := hrespects _ _ _ hcalls s fun e he hroom => hends ⟨e, he, hroom⟩
    rw [← hsame]
    exact hkeeps _ (execute_keepsUnits hnative limit) s hs

theorem runOn_consistent {limit : Nat} {text : String} {s : State Op}
    (h : host.RoomToDefine ∨ ¬ (w.runOn host limit text s).OutOfRoom) (hs : s.Consistent) :
    (w.runOn host limit text s).state.Consistent := by
  refine consistent_of_calls hnative (Act.respectsCalls_runText text) (fun call hcall => ?_) h hs
  rw [Act.runText, ← Room.runWords_ample]
  exact Room.runWords_keepsUnits (fun _ _ => rfl) hcall _

theorem evalOn_consistent {limit : Nat} {line : String} {s : State Op}
    (h : host.RoomToDefine ∨ ¬ (w.evalOn host limit line s).OutOfRoom) (hs : s.Consistent) :
    (w.evalOn host limit line s).state.Consistent := by
  have hrun : host.RoomToDefine ∨ ¬ (w.runOn host limit line s).OutOfRoom →
      (w.runOn host limit line s).state.Consistent := fun h => runOn_consistent hnative h hs
  rw [evalOn, Act.answered] at h ⊢
  cases hr : (w.runOn host limit line s).result with
  | ok u => exact hrun (.inr (Outcome.not_outOfRoom_of_ok hr))
  | error f =>
    cases f with
    | error e => exact fun _ => rfl
    | fault f =>
      rw [hr] at h
      refine hrun (h.imp_right fun hends => ?_)
      rintro ⟨e, he, hroom⟩
      rw [hr] at he
      cases he
      exact hends ⟨_, rfl, hroom⟩

theorem operationOn_consistent (host : Host Op) (limit : Nat) (op : Operation Op) (s : State Op)
    (h : host.RoomToDefine ∨ ¬ (op.actOn w host limit s).OutOfRoom) (hs : s.Consistent) :
    (op.actOn w host limit s).state.Consistent := by
  cases op with
  | run text => exact runOn_consistent hnative h hs
  | eval line =>
    rw [Operation.actOn, Act.state_drop]
    refine evalOn_consistent hnative (h.imp_right fun hends => ?_) hs
    rintro ⟨e, he, hroom⟩
    exact hends ⟨e, by rw [Operation.actOn, Act.bind_apply_of_error he], hroom⟩
  | interpret tokens =>
    refine consistent_of_calls hnative (Act.respectsCalls_interpret tokens) (fun call hcall => ?_) h hs
    rw [← Room.interpret_ample]
    exact Room.interpret_keepsUnits (fun _ _ => rfl) hcall tokens
  | runToken t =>
    have hrespects : Act.RespectsCalls fun call : Act.Call Op => Act.runToken call t :=
      fun _ _ _ h => Act.runToken_agreesUnless h t
    refine consistent_of_calls hnative hrespects (fun call hcall => ?_) h hs
    rw [← Room.runToken_ample]
    exact Room.runToken_keepsUnits (fun _ _ => rfl) hcall t
  | execute t => exact consistent_of_calls hnative (fun _ _ _ h => h t) (fun _ hcall => hcall t) h hs
  | pop =>
    have hstate : (Operation.actOn w host limit .pop s).state = (Act.pop s).state := Act.state_drop _ s
    rw [hstate]
    exact Act.Simulated.consistent sameStack_selfConsistent.pop hs
  | peek =>
    have hstate : (Operation.actOn w host limit .peek s).state = (Act.peek s).state := Act.state_drop _ s
    rw [hstate, Act.state_peek]
    exact hs
  | push _ | pushAll _ | define _ _ | defineNative _ _ | addMethod _ _ | addDeclarer _ | install _ => exact hs

omit hnative

/-- A world whose one operation opens a unit. -/
def opening : World Unit :=
  ⟨fun _ => .error .notFound, fun _ => Act.modify fun s => { s with depth := s.depth + 1 }⟩

/-- A unit is opened by an operation of the surrounding program and closed by the text. -/
def openedAndClosed : State Unit :=
  let host := Host.shallow callLimit
  let named := ((Operation.defineNative (.text "開く") ()).actOn opening host callLimit .new).state
  let ready := ((Operation.push (.text "名")).actOn opening host callLimit named).state
  ((Operation.run "開く 1 です").actOn opening host callLimit ready).state

theorem settled_openedAndClosed : Settled opening openedAndClosed := by
  refine ((Settled.new.step _ _ _ (.inr ?_)).step _ _ _ (.inr ?_)).step _ _ _ (.inr ?_)
  · exact Outcome.not_outOfRoom_of_ok rfl
  · exact Outcome.not_outOfRoom_of_ok rfl
  · exact Outcome.not_outOfRoom_of_ok (a := ()) (by decide +kernel)

/-- The word r opens a unit, closes it under the name q and calls itself. -/
def unitsWithoutEnd : String :=
  "「D」は は です 「r」「x」は 「q」 D 1 です r です r"

end World

end WordMachine
