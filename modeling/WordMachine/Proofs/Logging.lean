import WordMachine.CommandLine
import WordMachine.Proofs.CallDepth
import WordMachine.Proofs.Switches

/-!
# The log of a command line

With the switch for it, the notes of a run are logged on the error stream, and how the program was started
decides under which name. Neither is of any matter to the run: `outcome` does not depend on them, and of its
report only the error stream does (`report_sameButLog`). Without the log there is at most one
line on the error stream, which tells how the run ended (`lastWords`).

Writing a log needs room of its own, so the limit on nested calls may be another with it or without it. That
makes no difference to a run that stays within both: `StaysWithin` says that what a call beyond the limit
does is of no matter, and then the limit can be any larger one (`outcome_of_staysWithin`).
-/

namespace WordMachine.CommandLine

/-! ## Runs within a limit -/

/-- Runs sources in order; words are called by `call`. -/
def runSourcesBy (files : Files) (encoding : Option String) (call : Act.Call Empty) :
    List UInt8 → List String → Act Empty Unit
  | _, [] => pure ()
  | input, name :: rest => do
    Act.note (.running name)
    if name = inputName then
      Act.runText call (← Act.ofExcept (Source.readInput encoding input))
      runSourcesBy files encoding call [] rest
    else
      Act.runText call (← Act.ofExcept (Source.read files encoding name))
      runSourcesBy files encoding call input rest

/-- Runs what options ask for; words are called by `call`. -/
def runOptionsBy (files : Files) (input : List UInt8) (o : Options) (call : Act.Call Empty) :
    Act Empty Unit := do
  runSourcesBy files o.encoding call input (sources o)
  match o.text with
  | none => pure ()
  | some none => Act.fail (.fault .missingProgramText)
  | some (some text) => Act.runText call text

theorem runSources_eq_runSourcesBy (w : World Empty) (limit : Nat) (encoding : Option String)
    (names : List String) (input : List UInt8) :
    runSources w limit encoding input names =
      runSourcesBy w.files encoding (w.execute limit) input names := by
  induction names generalizing input with
  | nil => rfl
  | cons name names ih =>
    rw [runSources, runSourcesBy, ih, ih]
    rfl

theorem runOptions_eq_runOptionsBy (w : World Empty) (limit : Nat) (input : List UInt8)
    (o : Options) : runOptions w limit input o = runOptionsBy w.files input o (w.execute limit) := by
  unfold runOptions runOptionsBy
  rw [runSources_eq_runSourcesBy]
  rfl

theorem respectsCalls_runSourcesBy (files : Files) (encoding : Option String) (names : List String)
    (input : List UInt8) :
    Act.RespectsCalls fun call => runSourcesBy files encoding call input names := by
  intro bad call call' h
  induction names generalizing input with
  | nil => exact .refl _
  | cons name names ih =>
    simp only [runSourcesBy]
    refine .bind_left _ fun _ => ?_
    split
    · exact .bind_left _ fun text =>
        .bind (Act.respectsCalls_runText text bad call call' h) fun _ => ih []
    · exact .bind_left _ fun text =>
        .bind (Act.respectsCalls_runText text bad call call' h) fun _ => ih input

theorem respectsCalls_runOptionsBy (files : Files) (input : List UInt8) (o : Options) :
    Act.RespectsCalls (runOptionsBy files input o) := by
  intro bad call call' h
  unfold runOptionsBy
  refine .bind (respectsCalls_runSourcesBy files o.encoding (sources o) input bad call call' h)
    fun _ => ?_
  split
  · exact .refl _
  · exact .refl _
  · exact Act.respectsCalls_runText _ bad call call' h

/-- The run that options ask for stays within the limit on nested calls. -/
def StaysWithin (files : Files) (limit : Nat) (input : List UInt8) (o : Options) : Prop :=
  (World.ofFiles files).StaysWithin limit (runOptionsBy files input o)
    (State.new.install o.encoding)

theorem outcome_of_staysWithin {files : Files} {limit : Nat} {input : List UInt8} {o : Options}
    (h : StaysWithin files limit input o) (k : Nat) :
    outcome files (limit + k) input o = outcome files limit input o := by
  unfold outcome
  rw [runOptions_eq_runOptionsBy, runOptions_eq_runOptionsBy, World.execute_add_eq_executeBeyond]
  exact h _

theorem staysWithin_of_ok {files : Files} {limit : Nat} {input : List UInt8} {o : Options}
    (h : (outcome files limit input o).result.isOk = true) : StaysWithin files limit input o := by
  unfold outcome at h
  rw [runOptions_eq_runOptionsBy] at h
  exact .of_isOk (respectsCalls_runOptionsBy files input o) h

/-! ## Reports -/

section Reports

variable (launch launch' : Launch) (o o' : Options) (r r' : Outcome Empty Unit)

/-- Two reports that can only differ in their error streams. -/
structure Report.SameButLog (a b : Report) : Prop where
  status : a.status = b.status
  stdout : a.stdout = b.stdout

variable {r r'} in
theorem report_sameButLog (hresult : r'.result = r.result) (houtput : r'.output = r.output) :
    (report launch' o' r').SameButLog (report launch o r) := by
  unfold report
  rw [hresult, houtput]
  cases r.result with
  | ok u => exact ⟨rfl, rfl⟩
  | error f => cases f <;> exact ⟨rfl, rfl⟩

/-- What the error stream shows of the end of a run, apart from the log: the message of an error, or the
warning that a unit was left open. -/
def lastWords : String :=
  match r.result with
  | .ok () =>
    if 0 < r.state.depth then
      launch.logger ++ ": WARNING: input ended inside an unfinished definition\n"
    else ""
  | .error (.error e) => e.label ++ ": " ++ e.message ++ "\n"
  | .error (.fault _) => ""

variable {r r'} in
theorem lastWords_congr (hresult : r'.result = r.result) (hdepth : r'.state.depth = r.state.depth) :
    lastWords launch r' = lastWords launch r := by
  unfold lastWords
  rw [hresult, hdepth]

theorem unfinished_eq :
    unfinished launch =
      launch.logger ++ ": WARNING: input ended inside an unfinished definition\n" := by
  cases launch <;> decide +kernel

theorem stderr_report : (report launch o r).stderr = log launch o r ++ lastWords launch r := by
  unfold report lastWords
  cases r.result with
  | ok u => rw [unfinished_eq]
  | error f =>
    cases f with
    | error e => simp [String.append_assoc]
    | fault f => simp

theorem log_of_quiet {o : Options} (h : o.verbose = false) : log launch o r = "" := by
  unfold log
  simp [h]

end Reports

theorem run_of_parse {arguments : List String} {o : Options} (h : Options.parse arguments = .ok o)
    (launch : Launch) (files : Files) (limit : Nat) (input : List UInt8) :
    run launch files limit input arguments = report launch o (outcome files limit input o) := by
  unfold run
  rw [h]

/-! ## Argument lists with a log -/

/-- The second argument list is the first one with the switch for a log put in somewhere, and it makes
sense. -/
def AddsLog (arguments arguments' : List String) : Prop :=
  ∃ l r, arguments = l ++ r ∧ arguments' = l ++ Options.verboseArgument :: r ∧
    Argument.separatorText ∉ l ∧ ∃ o', Options.parse arguments' = .ok o'

theorem AddsLog.parse {arguments arguments' : List String} {o : Options}
    (h : AddsLog arguments arguments') (hparse : Options.parse arguments = .ok o) :
    Options.parse arguments' = .ok o.loud := by
  obtain ⟨l, r, rfl, rfl, hl, o', ho'⟩ := h
  obtain ⟨quiet, hquiet, rfl⟩ := Options.parse_insert_verbose hl ho'
  rw [hparse] at hquiet
  cases hquiet
  exact ho'

theorem addsLog_cons {arguments : List String} {o : Options}
    (hparse : Options.parse arguments = .ok o) :
    AddsLog arguments (Options.verboseArgument :: arguments) :=
  ⟨[], arguments, rfl, rfl, by simp, o.loud, Options.parse_cons_verbose hparse⟩

/-- **A log and the way of starting do not interfere with the program.** For every argument list that makes
sense, and a run of it within the limit on nested calls:

* The switch for a log can be put in front of the list.
* Wherever it was put in, or left out, and however the program was started, the status, the fault that
  escapes and the output are the same. The limits need not be the same on both sides.
* Of the same start, the log stands on the error stream before what is there without it.
* Without a log the error stream only has the message of the error of the machine with which the run ended,
  or the warning that it ended within a unit. -/
theorem log_does_not_interfere {files : Files} {limit : Nat} {input : List UInt8}
    {arguments : List String} {o : Options} (hparse : Options.parse arguments = .ok o)
    (hwithin : StaysWithin files limit input o) :
    AddsLog arguments (Options.verboseArgument :: arguments) ∧
    (∀ arguments', arguments' = arguments ∨ AddsLog arguments arguments' →
      ∀ (launch launch' : Launch) (k k' : Nat),
        (run launch' files (limit + k') input arguments').SameButLog
          (run launch files (limit + k) input arguments)) ∧
    (o.verbose = false → ∀ arguments', AddsLog arguments arguments' →
      ∀ (launch : Launch) (k k' : Nat), ∃ log,
        (run launch files (limit + k') input arguments').stderr =
          log ++ (run launch files (limit + k) input arguments).stderr) ∧
    (o.verbose = false → ∀ (launch : Launch) (k : Nat),
      (run launch files (limit + k) input arguments).stderr =
        lastWords launch (outcome files limit input o)) := by
  -- the log is no part of the outcome, so both lists have one outcome, and that at every limit
  have hquiet : ∀ launch k, run launch files (limit + k) input arguments =
      report launch o (outcome files limit input o) := by
    intro launch k
    rw [run_of_parse hparse, outcome_of_staysWithin hwithin]
  have hloud : ∀ arguments', AddsLog arguments arguments' → ∀ launch k,
      run launch files (limit + k) input arguments' =
        report launch o.loud (outcome files limit input o) := by
    intro arguments' hadds launch k
    rw [run_of_parse (hadds.parse hparse)]
    exact congrArg _ (outcome_of_staysWithin hwithin k)
  have hwords : o.verbose = false → ∀ launch k,
      (run launch files (limit + k) input arguments).stderr =
        lastWords launch (outcome files limit input o) := by
    intro hverbose launch k
    rw [hquiet, stderr_report, log_of_quiet launch _ hverbose, String.empty_append]
  refine ⟨addsLog_cons hparse, ?_, ?_, hwords⟩
  · rintro arguments' (rfl | hadds) launch launch' k k'
    · rw [hquiet, hquiet]
      exact report_sameButLog launch launch' o o rfl rfl
    · rw [hquiet, hloud arguments' hadds]
      exact report_sameButLog launch launch' o o.loud rfl rfl
  · intro hverbose arguments' hadds launch k k'
    rw [hwords hverbose, hloud arguments' hadds, stderr_report]
    exact ⟨_, rfl⟩

/-- A text that defines a word, writes a number and ends within another definition. -/
def unfinishedText : String := "「三」は 3 です 三 書く 「四」は"

/-- With the log behind the text and as a module, the program writes the same; without a log only the
warning is on the error stream. -/
theorem log_does_not_interfere_unfinished :
    (run .asModule (fun _ => .error .notFound) 3 [] ["-e", unfinishedText, "-v"]).SameButLog
      (run .command (fun _ => .error .notFound) 2 [] ["-e", unfinishedText]) ∧
    (run .command (fun _ => .error .notFound) 2 [] ["-e", unfinishedText]).stdout = "3" ∧
    (run .command (fun _ => .error .notFound) 2 [] ["-e", unfinishedText]).stderr =
      "kotoba.cli: WARNING: input ended inside an unfinished definition\n" := by
  have hparse : Options.parse ["-e", unfinishedText] =
      .ok { text := some (some unfinishedText) } := rfl
  have hadds : AddsLog ["-e", unfinishedText] ["-e", unfinishedText, "-v"] :=
    ⟨["-e", unfinishedText], [], rfl, rfl, by decide, _, rfl⟩
  have hwithin : StaysWithin (fun _ => .error .notFound) 2 []
      { text := some (some unfinishedText) } := staysWithin_of_ok (by decide +kernel)
  obtain ⟨-, hsame, -, hwords⟩ := log_does_not_interfere hparse hwithin
  refine ⟨hsame _ (.inr hadds) .command .asModule 0 1, by decide +kernel, ?_⟩
  rw [hwords rfl .command 0]
  decide +kernel

end WordMachine.CommandLine
