import WordMachine.Console
import WordMachine.Proofs.LineEnds
import WordMachine.Proofs.Outcome

/-!
# The transcript of a session

A console hears one line after the other. `Talk` is how far it has come: the state of its machine, all that
was written so far, and the failure that escaped, if one did. Hearing a line evaluates it and writes the
answer behind what the line wrote (`Talk.hear`); behind a failure nothing is heard any more. A whole session
is the fold of this over the lines of its input up to the farewell (`session_is_fold`).

Of the input only these lines matter. Two inputs with the same lines, whatever their line ends are, give the
same session, and so do two inputs that have the same lines before the farewell.
-/

namespace WordMachine

/-- Evaluating a line answers every error of the machine, so that only faults escape. -/
theorem World.eval_result_ne_error {Op : Type} (w : World Op) (limit : Nat) (line : String)
    (s : State Op) (e : MachineError) : (w.eval limit line s).result ≠ .error (.error e) := by
  rw [eval, Act.answered]
  cases (w.run limit line s).result with
  | ok u => exact nofun
  | error f =>
    cases f with
    | error e => exact nofun
    | fault f => exact nofun

namespace Console

variable {Op : Type}

/-- How far a console has come. -/
structure Talk (Op : Type) where
  state : State Op
  written : String
  escaped : Option Failure := none

namespace Talk

/-- Hears one line, unless a failure has escaped: what its evaluation writes is followed by the answer and a
line feed. -/
def hear (w : World Op) (limit : Nat) (t : Talk Op) (line : String) : Talk Op :=
  match t.escaped with
  | some _ => t
  | none =>
    let o := w.eval limit line t.state
    match o.result with
    | .ok response => ⟨o.state, t.written ++ o.output ++ response.text ++ "\n", none⟩
    | .error e => ⟨o.state, t.written ++ o.output, some e⟩

/-- How a session ends that came so far. -/
def ending (t : Talk Op) : Except Failure Unit :=
  match t.escaped with
  | none => .ok ()
  | some e => .error e

variable {w : World Op} {limit : Nat} {t : Talk Op} {line : String}

theorem hear_of_ok (ht : t.escaped = none) {r : Response}
    (hr : (w.eval limit line t.state).result = .ok r) :
    t.hear w limit line =
      ⟨(w.eval limit line t.state).state,
        t.written ++ (w.eval limit line t.state).output ++ r.text ++ "\n", none⟩ := by
  simp only [hear, ht, hr]

theorem hear_of_error (ht : t.escaped = none) {e : Failure}
    (hr : (w.eval limit line t.state).result = .error e) :
    t.hear w limit line =
      ⟨(w.eval limit line t.state).state, t.written ++ (w.eval limit line t.state).output,
        some e⟩ := by
  simp only [hear, ht, hr]

theorem foldl_hear_of_escaped (lines : List String) {e : Failure} (ht : t.escaped = some e) :
    lines.foldl (hear w limit) t = t := by
  induction lines with
  | nil => rfl
  | cons line lines ih =>
    have hsame : t.hear w limit line = t := by simp only [hear, ht]
    rw [List.foldl_cons, hsame, ih]

/-- Only faults escape. -/
theorem escaped_hear (h : ∀ e, t.escaped = some e → ∃ f, e = .fault f) :
    ∀ e, (t.hear w limit line).escaped = some e → ∃ f, e = .fault f := by
  cases ht : t.escaped with
  | some e =>
    simp only [hear, ht]
    rwa [ht] at h
  | none =>
    cases hr : (w.eval limit line t.state).result with
    | ok r =>
      rw [hear_of_ok ht hr]
      exact nofun
    | error e =>
      rw [hear_of_error ht hr]
      rintro e' ⟨⟩
      cases e with
      | error e => exact absurd hr (w.eval_result_ne_error limit line t.state e)
      | fault f => exact ⟨f, rfl⟩

theorem escaped_foldl_hear (lines : List String)
    (h : ∀ e, t.escaped = some e → ∃ f, e = .fault f) :
    ∀ e, (lines.foldl (hear w limit) t).escaped = some e → ∃ f, e = .fault f := by
  induction lines generalizing t with
  | nil => exact h
  | cons line lines ih => exact ih (escaped_hear h)

theorem ending_error (t : Talk Op) (h : ∀ e, t.escaped = some e → ∃ f, e = .fault f) :
    ∀ e, t.ending = .error e → ∃ f, e = .fault f := by
  intro e he
  unfold ending at he
  cases ht : t.escaped with
  | none => simp only [ht] at he; cases he
  | some e' =>
    simp only [ht] at he
    cases he
    exact h _ ht

end Talk

/-! ## A row of lines -/

section Conversation

variable {w : World Op} {limit : Nat} {line : String} {s : State Op}

theorem converse_of_ok {r : Response} (hr : (w.eval limit line s).result = .ok r) :
    converse w limit line s =
      ⟨.ok (), (w.eval limit line s).state, (w.eval limit line s).output ++ (r.text ++ "\n"),
        (w.eval limit line s).journal⟩ := by
  rw [converse, Act.bind_apply_of_ok hr, Act.write_apply]
  simp

theorem converse_of_error {e : Failure} (hr : (w.eval limit line s).result = .error e) :
    converse w limit line s =
      ⟨.error e, (w.eval limit line s).state, (w.eval limit line s).output,
        (w.eval limit line s).journal⟩ := by
  rw [converse, Act.bind_apply_of_error hr]

/-- Answering lines comes to what hearing them comes to. -/
theorem converseAll_eq_foldl (w : World Op) (limit : Nat) (lines : List String) {t : Talk Op}
    (ht : t.escaped = none) :
    (converseAll w limit lines t.state).result = (lines.foldl (Talk.hear w limit) t).ending ∧
      (converseAll w limit lines t.state).state = (lines.foldl (Talk.hear w limit) t).state ∧
      t.written ++ (converseAll w limit lines t.state).output =
        (lines.foldl (Talk.hear w limit) t).written := by
  induction lines generalizing t with
  | nil =>
    refine ⟨?_, rfl, String.append_empty⟩
    rw [List.foldl_nil, Talk.ending, ht]
    rfl
  | cons line lines ih =>
    rw [converseAll, List.foldl_cons]
    cases hr : (w.eval limit line t.state).result with
    | ok r =>
      obtain ⟨hresult, hstate, hwritten⟩ := ih (t := t.hear w limit line) (by rw [Talk.hear_of_ok ht hr])
      rw [Talk.hear_of_ok ht hr] at hresult hstate hwritten ⊢
      rw [Act.bind_apply_ok (converse_of_ok hr)]
      refine ⟨hresult, hstate, ?_⟩
      rw [← hwritten, Outcome.output_behind]
      simp only [String.append_assoc]
    | error e =>
      rw [Act.bind_apply_error (converse_of_error hr), Talk.hear_of_error ht hr,
        Talk.foldl_hear_of_escaped lines rfl]
      exact ⟨rfl, rfl, rfl⟩

end Conversation

/-! ## Whole sessions -/

/-- The lines that a console hears: those before the first that is the farewell without the white space
around it. -/
def heard (ls : List (List Char)) : List String :=
  (ls.takeWhile fun l => Text.strip l ≠ farewell.toList).map String.ofList

theorem upToFarewell_lines {input : String} {ls : List (List Char)}
    (h : Text.HasLines input.toList ls) : upToFarewell (Text.lines input) = heard ls := by
  have hother : (fun line => !isFarewell line) ∘ String.ofList =
      fun l => decide (Text.strip l ≠ farewell.toList) := by
    funext l
    rw [Bool.eq_iff_iff]
    simp [isFarewell]
  rw [Text.lines, h.splitLines_eq, upToFarewell, heard, List.takeWhile_map, hother]

theorem heard_append {before : List (List Char)} {bye : List Char}
    (hbye : Text.strip bye = farewell.toList) (after : List (List Char)) :
    heard (before ++ bye :: after) = heard before := by
  unfold heard
  congr 1
  induction before with
  | nil => simp [hbye]
  | cons l before ih => rw [List.cons_append, List.takeWhile_cons, List.takeWhile_cons, ih]

/-- A console at the beginning of a session. -/
def opening : Talk Empty :=
  ⟨State.new.install (some "utf-8"), greeting ++ "\n", none⟩

theorem session_eq_of_heard (files : Files) (limit : Nat) {input input' : String}
    {ls ls' : List (List Char)} (h : Text.HasLines input.toList ls)
    (h' : Text.HasLines input'.toList ls') (hsame : heard ls = heard ls') :
    session files limit input = session files limit input' := by
  unfold session
  rw [upToFarewell_lines h, upToFarewell_lines h', hsame]

theorem session_eq_foldl (files : Files) (limit : Nat) {input : String} {ls : List (List Char)}
    (h : Text.HasLines input.toList ls) :
    (session files limit input).result =
        ((heard ls).foldl (Talk.hear (World.ofFiles files) limit) opening).ending ∧
      (session files limit input).output =
        ((heard ls).foldl (Talk.hear (World.ofFiles files) limit) opening).written := by
  have hsession : session files limit input =
      (do
        Act.write (greeting ++ "\n")
        converseAll (World.ofFiles files) limit (heard ls) : Act Empty Unit) opening.state := by
    rw [← upToFarewell_lines h]
    rfl
  obtain ⟨hresult, -, hwritten⟩ :=
    converseAll_eq_foldl (World.ofFiles files) limit (heard ls) (t := opening) rfl
  rw [hsession, Act.bind_apply_ok (Act.write_apply _ _)]
  exact ⟨hresult, hwritten⟩

/-- **A session is a fold of evaluation over its lines.**

* Every input has just one list of lines. The session writes what hearing these lines one after the other,
  up to the farewell, writes behind the greeting, and it ends as that does: normally, or in the fault that
  escaped at some line and behind which nothing is heard.
* Inputs with the same lines give the same session, whatever ends the lines.
* What follows the line that takes leave, and this line itself, might as well not be there. -/
theorem session_is_fold (files : Files) (limit : Nat) :
    (∀ input : String, ∃ ls : List (List Char),
      (∀ ls', Text.HasLines input.toList ls' ↔ ls' = ls) ∧
      (session files limit input).output =
        ((heard ls).foldl (Talk.hear (World.ofFiles files) limit) opening).written ∧
      (session files limit input).result =
        ((heard ls).foldl (Talk.hear (World.ofFiles files) limit) opening).ending ∧
      ∀ e, (session files limit input).result = .error e → ∃ f, e = .fault f) ∧
    (∀ (input input' : String) (ls : List (List Char)),
      Text.HasLines input.toList ls → Text.HasLines input'.toList ls →
      session files limit input = session files limit input') ∧
    ∀ (input input' : String) (before after : List (List Char)) (bye : List Char),
      Text.strip bye = farewell.toList →
      Text.HasLines input.toList (before ++ bye :: after) → Text.HasLines input'.toList before →
      session files limit input = session files limit input' := by
  refine ⟨fun input => ?_, fun input input' ls h h' => ?_, ?_⟩
  · have hlines := Text.hasLines_splitLines input.toList
    obtain ⟨hresult, hwritten⟩ := session_eq_foldl files limit hlines
    refine ⟨_, fun ls' => Text.hasLines_iff.trans eq_comm, hwritten, hresult, ?_⟩
    rw [hresult]
    exact Talk.ending_error _ (Talk.escaped_foldl_hear _ nofun)
  · exact session_eq_of_heard files limit h h' rfl
  · intro input input' before after bye hbye h h'
    exact session_eq_of_heard files limit h h' (heard_append hbye after)

/-- The same two lines with three kinds of line ends; behind the farewell, which stands between spaces,
nothing is heard. -/
theorem session_is_fold_farewell :
    session (fun _ => .error .notFound) World.callLimit "1\x0d\n謎\x0d さようなら　\n1 書く" =
        session (fun _ => .error .notFound) World.callLimit "1\n謎" ∧
      (session (fun _ => .error .notFound) World.callLimit "1\n謎").output =
        greeting ++ "\n ok\n ? unknown name: 謎\n" := by
  obtain ⟨hfold, -, hleave⟩ := session_is_fold (fun _ => .error .notFound) World.callLimit
  have hlong : Text.HasLines "1\x0d\n謎\x0d さようなら　\n1 書く".toList
      (["1".toList, "謎".toList] ++ " さようなら　".toList :: ["1 書く".toList]) :=
    Text.hasLines_iff.mpr (by decide +kernel)
  have hshort : Text.HasLines "1\n謎".toList ["1".toList, "謎".toList] :=
    Text.hasLines_iff.mpr (by decide +kernel)
  refine ⟨hleave _ _ _ _ _ (by decide +kernel) hlong hshort, ?_⟩
  obtain ⟨ls, hunique, hwritten, -⟩ := hfold "1\n謎"
  rw [hwritten, ← (hunique _).mp hshort]
  decide +kernel

end Console

end WordMachine
