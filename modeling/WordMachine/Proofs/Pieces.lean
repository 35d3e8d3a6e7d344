import WordMachine.Console
import WordMachine.Proofs.Outcome
import WordMachine.Proofs.Seam

/-!
# Running in pieces

A text that is cut at a line break behind a closed part runs as the two parts do one after the other:
the scan falls into two (`Word.map_text_scan_append`), and all else that a run carries from one token
to the next is in the state of the machine. So a console that is fed closed lines one by one ends
where a single run of the joined lines ends, as long as none of them fails.
-/

namespace WordMachine

variable {Op : Type}

open Word

/-- Whether an answer tells of an error. -/
def Response.isTrouble : Response → Bool
  | .trouble _ => true
  | _ => false

/-! ## Two parts -/

theorem Act.runWords_congr (call : Call Op) {ws vs : List Word}
    (h : ws.map Word.text = vs.map Word.text) : runWords call ws = runWords call vs := by
  induction ws generalizing vs with
  | nil =>
    rw [List.map_nil, eq_comm, List.map_eq_nil_iff] at h
    rw [h]
  | cons w ws ih =>
    cases vs with
    | nil => cases h
    | cons v vs =>
      obtain ⟨htext, hrest⟩ := List.cons.inj h
      rw [runWords, runWords, htext, ih hrest]

theorem tokenize_eq_mapM_text (text : String) :
    Token.tokenize text = ((scan text).map Word.text).mapM Token.classify := by
  rw [Token.tokenize, List.mapM_map]
  rfl

/-- The tokens of two parts are those of the first and those of the second; a numeral that is too long
fails in either. -/
theorem tokenize_append {a : String} (h : isClosed a = true) (b : String) :
    Token.tokenize (a ++ "\n" ++ b) =
      (do
        let ts ← Token.tokenize a
        let us ← Token.tokenize b
        return ts ++ us) := by
  rw [tokenize_eq_mapM_text, map_text_scan_append h, List.mapM_append, tokenize_eq_mapM_text,
    tokenize_eq_mapM_text]

theorem Act.runText_append (call : Call Op) {a : String} (h : isClosed a = true) (b : String) :
    runText call (a ++ "\n" ++ b) = (do runText call a; runText call b) := by
  have hwords : (scan (a ++ "\n" ++ b)).map Word.text = (scan a ++ scan b).map Word.text := by
    rw [map_text_scan_append h, List.map_append]
  rw [runText, runWords_congr _ hwords, runWords_append]
  rfl

namespace World

theorem run_append (w : World Op) (limit : Nat) {a : String} (h : isClosed a = true) (b : String) :
    w.run limit (a ++ "\n" ++ b) = (do w.run limit a; w.run limit b) :=
  Act.runText_append (w.execute limit) h b

/-! ## Line by line -/

/-- Feeds lines to the console one by one and collects the answers. -/
def evalAll (w : World Op) (limit : Nat) (lines : List String) : Act Op (List Response) :=
  lines.mapM (w.eval limit)

/-- Every line is answered, and none with an error. -/
def NoTrouble (w : World Op) (limit : Nat) (lines : List String) (s : State Op) : Prop :=
  ∃ rs, (w.evalAll limit lines s).result = .ok rs ∧ ∀ r ∈ rs, r.isTrouble = false

theorem run_empty (w : World Op) (limit : Nat) : w.run limit "" = pure () := by
  simp [run, Act.runText, scan, Act.runWords]

theorem run_join_cons (w : World Op) (limit : Nat) {l : String} (h : isClosed l = true)
    (ls : List String) :
    w.run limit ("\n".intercalate (l :: ls)) =
      (do w.run limit l; w.run limit ("\n".intercalate ls)) := by
  cases ls with
  | nil =>
    rw [String.intercalate_singleton, String.intercalate_nil, run_empty]
    simp
  | cons m ms => rw [String.intercalate_cons_cons, run_append w limit h]

theorem isTrouble_response (s : State Op) : (response s).isTrouble = false := by
  unfold response
  split <;> rfl

theorem eval_of_run_ok {w : World Op} {limit : Nat} {l : String} {s : State Op}
    (h : (w.run limit l s).result = .ok ()) :
    w.eval limit l s =
      { w.run limit l s with result := .ok (response (w.run limit l s).state) } := by
  rw [eval, Act.answered]
  simp only [h]

theorem eval_of_run_raise {w : World Op} {limit : Nat} {l : String} {s : State Op} {e : MachineError}
    (h : (w.run limit l s).result = .error (.error e)) :
    w.eval limit l s =
      { w.run limit l s with
        result := .ok (.trouble e.message), state := (w.run limit l s).state.reset } := by
  rw [eval, Act.answered]
  simp only [h]

theorem eval_of_run_fault {w : World Op} {limit : Nat} {l : String} {s : State Op} {f : Fault}
    (h : (w.run limit l s).result = .error (.fault f)) :
    w.eval limit l s = { w.run limit l s with result := .error (.fault f) } := by
  rw [eval, Act.answered]
  simp only [h]

theorem eval_of_run_error {w : World Op} {limit : Nat} {l : String} {s : State Op} {f : Failure}
    (h : (w.run limit l s).result = .error f) :
    (∃ m, (w.eval limit l s).result = .ok (.trouble m)) ∨
      ∃ g, (w.eval limit l s).result = .error g := by
  rw [eval, Act.answered]
  simp only [h]
  cases f with
  | error e => exact .inl ⟨_, rfl⟩
  | fault g => exact .inr ⟨_, rfl⟩

theorem noTrouble_nil (w : World Op) (limit : Nat) (s : State Op) : w.NoTrouble limit [] s :=
  ⟨[], rfl, by simp⟩

/-- A line that runs to its end is answered without an error, and the next lines go on from there. -/
theorem evalAll_cons_of_ok {w : World Op} {limit : Nat} {l : String} {s : State Op}
    (h : (w.run limit l s).result = .ok ()) (ls : List String) :
    (w.NoTrouble limit (l :: ls) s ↔ w.NoTrouble limit ls (w.run limit l s).state) ∧
      (w.evalAll limit (l :: ls) s).state = (w.evalAll limit ls (w.run limit l s).state).state ∧
      (w.evalAll limit (l :: ls) s).output =
        (w.run limit l s).output ++ (w.evalAll limit ls (w.run limit l s).state).output := by
  have hcons : w.evalAll limit (l :: ls) s =
      ((do let rs ← w.evalAll limit ls; pure (response (w.run limit l s).state :: rs) :
        Act Op (List Response)) (w.run limit l s).state).behind
          (w.run limit l s).output (w.run limit l s).journal := by
    rw [evalAll, List.mapM_cons, Act.bind_apply_ok (eval_of_run_ok h)]
    rfl
  cases hr : (w.evalAll limit ls (w.run limit l s).state).result with
  | error f =>
    rw [hcons, Act.bind_apply_of_error hr]
    refine ⟨⟨?_, ?_⟩, rfl, rfl⟩
    · rintro ⟨rs, hrs, -⟩
      rw [hcons, Act.bind_apply_of_error hr] at hrs
      cases hrs
    · rintro ⟨rs, hrs, -⟩
      rw [hr] at hrs
      cases hrs
  | ok rs =>
    rw [hcons, Act.bind_apply_of_ok hr]
    refine ⟨⟨?_, ?_⟩, rfl, by simp [Act.pure_apply]⟩
    · rintro ⟨qs, hqs, hquiet⟩
      rw [hcons, Act.bind_apply_of_ok hr] at hqs
      cases hqs
      exact ⟨rs, hr, fun r hmem => hquiet r (List.mem_cons_of_mem _ hmem)⟩
    · rintro ⟨qs, hqs, hquiet⟩
      rw [hr] at hqs
      cases hqs
      refine ⟨response (w.run limit l s).state :: rs, ?_, ?_⟩
      · rw [hcons, Act.bind_apply_of_ok hr]
        rfl
      · intro r hmem
        rcases List.mem_cons.mp hmem with rfl | hmem
        · exact isTrouble_response _
        · exact hquiet r hmem

theorem not_noTrouble_cons_of_error {w : World Op} {limit : Nat} {l : String} {s : State Op}
    {f : Failure} (h : (w.run limit l s).result = .error f) (ls : List String) :
    ¬ w.NoTrouble limit (l :: ls) s := by
  rintro ⟨rs, hrs, hquiet⟩
  rw [evalAll, List.mapM_cons] at hrs
  rcases eval_of_run_error h with ⟨m, hm⟩ | ⟨g, hg⟩
  · rw [Act.bind_apply_of_ok hm] at hrs
    cases hr : (ls.mapM (w.eval limit) (w.eval limit l s).state).result with
    | error f =>
      rw [Act.bind_apply_of_error hr] at hrs
      cases hrs
    | ok qs =>
      rw [Act.bind_apply_of_ok hr] at hrs
      cases hrs
      cases hquiet (.trouble m) (by simp)
  · rw [Act.bind_apply_of_error hg] at hrs
    cases hrs

/-- Closed lines are answered without an error exactly if their join runs to its end, and then both
end in the same state with the same output. -/
theorem noTrouble_iff_run_join {w : World Op} {limit : Nat} {lines : List String}
    (h : ∀ l ∈ lines, isClosed l = true) (s : State Op) :
    (w.NoTrouble limit lines s ↔ (w.run limit ("\n".intercalate lines) s).result = .ok ()) ∧
      (w.NoTrouble limit lines s →
        (w.evalAll limit lines s).state = (w.run limit ("\n".intercalate lines) s).state ∧
        (w.evalAll limit lines s).output =
          (w.run limit ("\n".intercalate lines) s).output) := by
  induction lines generalizing s with
  | nil =>
    rw [String.intercalate_nil, run_empty, Act.pure_apply]
    exact ⟨⟨fun _ => rfl, fun _ => noTrouble_nil w limit s⟩, fun _ => ⟨rfl, rfl⟩⟩
  | cons l ls ih =>
    rw [run_join_cons w limit (h l (by simp))]
    cases hl : (w.run limit l s).result with
    | error f =>
      have hno := not_noTrouble_cons_of_error hl ls
      rw [Act.bind_apply_of_error hl]
      exact ⟨⟨fun hq => absurd hq hno, fun hr => by cases hr⟩, fun hq => absurd hq hno⟩
    | ok u =>
      obtain ⟨hquiet, hstate, houtput⟩ := evalAll_cons_of_ok hl ls
      obtain ⟨hiff, hsame⟩ := ih (fun m hm => h m (by simp [hm])) (w.run limit l s).state
      rw [Act.bind_apply_of_ok hl, hquiet, hstate, houtput]
      refine ⟨hiff, fun hq => ?_⟩
      rw [(hsame hq).1, (hsame hq).2]
      exact ⟨rfl, rfl⟩

/-- **Running in pieces equals running whole.** Behind a closed text, a line break and more text: the
tokens are those of both parts, and the run is the run of the first part and then, if that ended
normally, of the second. Hence closed lines that are fed to the console one by one, none of them
failing, lead to the same state as one run of their join. -/
theorem run_in_pieces (w : World Op) (limit : Nat) :
    (∀ a b : String, isClosed a = true →
      Token.tokenize (a ++ "\n" ++ b) =
          (do
            let ts ← Token.tokenize a
            let us ← Token.tokenize b
            return ts ++ us) ∧
        w.run limit (a ++ "\n" ++ b) = (do w.run limit a; w.run limit b)) ∧
    ∀ (lines : List String) (s : State Op), (∀ l ∈ lines, isClosed l = true) →
      (w.NoTrouble limit lines s ↔ (w.run limit ("\n".intercalate lines) s).result = .ok ()) ∧
      (w.NoTrouble limit lines s →
        (w.evalAll limit lines s).state = (w.run limit ("\n".intercalate lines) s).state ∧
        (w.evalAll limit lines s).output =
          (w.run limit ("\n".intercalate lines) s).output) := by
  refine ⟨fun a b h => ⟨tokenize_append h b, run_append w limit h b⟩, ?_⟩
  intro lines s h
  exact noTrouble_iff_run_join h s

/-- A word that is defined over three lines: the unit stays open between them. -/
def definitionInLines : List String :=
  ["「三」は", "3", "です 三"]

theorem run_in_pieces_definition :
    Token.tokenize ("「三」は" ++ "\n" ++ "3") =
        (do
          let ts ← Token.tokenize "「三」は"
          let us ← Token.tokenize "3"
          return ts ++ us) ∧
      (∀ l ∈ definitionInLines, isClosed l = true) ∧
      (ofFiles fun _ => .error .notFound).NoTrouble callLimit definitionInLines .new ∧
      ((ofFiles fun _ => .error .notFound).evalAll callLimit definitionInLines .new).state =
        ((ofFiles fun _ => .error .notFound).run callLimit "「三」は\n3\nです 三" .new).state := by
  have hclosed : ∀ l ∈ definitionInLines, isClosed l = true := by decide +kernel
  have hjoin : "\n".intercalate definitionInLines = "「三」は\n3\nです 三" := by decide +kernel
  obtain ⟨hparts, hlines⟩ := run_in_pieces (ofFiles fun _ => .error .notFound) callLimit
  obtain ⟨hiff, hsame⟩ := hlines definitionInLines .new hclosed
  have hrun : ((ofFiles fun _ => .error .notFound).run callLimit "「三」は\n3\nです 三"
      .new).result.isOk = true := by decide +kernel
  have hquiet : (ofFiles fun _ => .error .notFound).NoTrouble callLimit definitionInLines .new := by
    rw [hiff, hjoin]
    revert hrun
    cases (run _ _ _ _).result with
    | ok u => exact fun _ => rfl
    | error f => exact fun h => absurd h Bool.false_ne_true
  refine ⟨(hparts _ _ (hclosed _ (List.mem_cons_self ..))).1, hclosed, hquiet, ?_⟩
  rw [(hsame hquiet).1, hjoin]

end World

end WordMachine
