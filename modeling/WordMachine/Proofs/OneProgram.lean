import WordMachine.CommandLine
import WordMachine.Proofs.Inline
import WordMachine.Proofs.Pieces

/-!
# The sources of a command line are one program

A command line reads its sources one at a time, each when all before it have run, and runs them on one
machine. `sourceTexts` says what the sources are without running anything: the contents of the files, and
for the name of standard input all of it the first time and nothing from then on. Where these texts can be
read, the run of the sources is the run of the texts one after the other (`runSources_agrees`), and this
is the run of their join, if all but the last are closed (`World.run_join`).

A source that cannot be read ends the run where it stands: what was run before it has been written, and
nothing behind it is looked at (`runSources_of_unreadable`).
-/

namespace WordMachine

open Word

namespace World

variable {Op : Type}

/-- Runs texts one after the other, up to the first that fails. -/
def runAll (w : World Op) (limit : Nat) : List String → Act Op Unit
  | [] => pure ()
  | text :: texts => do
    w.run limit text
    w.runAll limit texts

theorem runAll_append (w : World Op) (limit : Nat) (texts more : List String) :
    w.runAll limit (texts ++ more) = (do w.runAll limit texts; w.runAll limit more) := by
  induction texts with
  | nil => simp [runAll]
  | cons text texts ih => simp [runAll, ih]

/-- Texts that are joined by line breaks run one after the other, if all but the last are closed. -/
theorem run_join (w : World Op) (limit : Nat) (texts : List String)
    (h : ∀ t ∈ texts.dropLast, isClosed t = true) :
    w.run limit ("\n".intercalate texts) = w.runAll limit texts := by
  induction texts with
  | nil => rw [String.intercalate_nil, run_empty, runAll]
  | cons t texts ih =>
    cases texts with
    | nil => simp [String.intercalate_singleton, runAll]
    | cons u us =>
      have hlater : ∀ v ∈ (u :: us).dropLast, isClosed v = true :=
        fun v hv => h v (by simp [hv])
      rw [run_join_cons w limit (h t (by simp)), ih hlater]
      rfl

end World

namespace Source

variable {encoding : Option String} {octets : List UInt8} {text : String}

/-- In every encoding no octets are the empty text. -/
theorem decode_nil (e : Encoding) : e.decode [] = .ok [] := by
  cases e <;> rfl

/-- If standard input can be read, it can be read once more, and is empty then. -/
theorem readInput_nil (h : readInput encoding octets = .ok text) : readInput encoding [] = .ok "" := by
  unfold readInput ofOctets at h ⊢
  cases encoding with
  | none => cases h
  | some name =>
    by_cases hnull : hasNull name = true
    · simp only [if_pos hnull] at h
      cases h
    · simp only [if_neg hnull] at h ⊢
      cases he : Encoding.ofName? name with
      | none =>
        simp only [he] at h
        cases h
      | some e =>
        simp only [decode_nil]
        rfl

end Source

namespace CommandLine

/-! ## What the sources are -/

section Texts

variable (files : Files) (encoding : Option String) (input : List UInt8)

/-- The text of the source of a given name, when standard input has been taken or not. -/
def sourceText (taken : Bool) (name : String) : Except Failure String :=
  if name = inputName then
    if taken then .ok "" else Source.readInput encoding input
  else Source.read files encoding name

/-- The texts of sources in order. -/
def sourceTexts (taken : Bool) : List String → Except Failure (List String)
  | [] => .ok []
  | name :: names => do
    let text ← sourceText files encoding input taken name
    let texts ← sourceTexts (taken || name = inputName) names
    return text :: texts

end Texts

/-- What is left of standard input when it has been taken or not. -/
def left (taken : Bool) (input : List UInt8) : List UInt8 :=
  if taken then [] else input

variable {w : World Empty} {limit : Nat} {encoding : Option String} {input : List UInt8}
  {taken : Bool} {name : String} {names : List String} {texts : List String}

theorem sourceTexts_cons_eq_ok
    (h : sourceTexts w.files encoding input taken (name :: names) = .ok texts) :
    ∃ text rest, texts = text :: rest ∧ sourceText w.files encoding input taken name = .ok text ∧
      sourceTexts w.files encoding input (taken || name = inputName) names = .ok rest := by
  unfold sourceTexts at h
  cases hfirst : sourceText w.files encoding input taken name with
  | error e => rw [hfirst] at h; cases h
  | ok text =>
    cases hrest : sourceTexts w.files encoding input (taken || name = inputName) names with
    | error e => rw [hfirst, hrest] at h; cases h
    | ok rest =>
      rw [hfirst, hrest] at h
      cases h
      exact ⟨text, rest, rfl, rfl, rfl⟩

/-- Standard input that has been taken can be read again, and is empty. -/
def Rereads (encoding : Option String) (taken : Bool) : Prop :=
  taken = true → Source.readInput encoding [] = .ok ""

theorem rereads_false (encoding : Option String) : Rereads encoding false := by
  intro h
  cases h

theorem Rereads.or_of_sourceText {text : String} (h : Rereads encoding taken)
    (hread : sourceText w.files encoding input taken name = .ok text) :
    Rereads encoding (taken || name = inputName) := by
  intro hnow
  cases taken with
  | true => exact h rfl
  | false =>
    have hname : name = inputName := by simpa using hnow
    simp only [sourceText, if_pos hname, Bool.false_eq_true, if_false] at hread
    exact Source.readInput_nil hread

theorem Rereads.or_of_sourceTexts (h : Rereads encoding taken)
    (hread : sourceTexts w.files encoding input taken names = .ok texts) :
    Rereads encoding (taken || names.contains inputName) := by
  induction names generalizing taken texts with
  | nil => simpa using h
  | cons name names ih =>
    obtain ⟨text, rest, -, hfirst, hrest⟩ := sourceTexts_cons_eq_ok hread
    have hlater := ih (h.or_of_sourceText hfirst) hrest
    have hsame : (taken || decide (name = inputName) || names.contains inputName) =
        (taken || (name :: names).contains inputName) := by
      simp [Bool.or_assoc, eq_comm]
    rw [← hsame]
    exact hlater

/-! ## Running the sources -/

/-- A source is noted, read and run. -/
theorem runSources_cons (h : Rereads encoding taken) :
    runSources w limit encoding (left taken input) (name :: names) =
      (do
        Act.note (.running name)
        w.run limit (← Act.ofExcept (sourceText w.files encoding input taken name))
        runSources w limit encoding (left (taken || name = inputName) input) names) := by
  rw [runSources]
  by_cases hname : name = inputName
  · have hread : Source.readInput encoding (left taken input) =
        sourceText w.files encoding input taken name := by
      cases taken with
      | true => simp [left, sourceText, hname, h rfl]
      | false => simp [left, sourceText, hname]
    have hleft : left (taken || decide (name = inputName)) input = [] := by simp [left, hname]
    rw [if_pos hname, hread, hleft]
  · simp [sourceText, hname]

theorem runSources_append (names more : List String) (input : List UInt8) :
    runSources w limit encoding input (names ++ more) =
      (do
        runSources w limit encoding input names
        runSources w limit encoding (left (names.contains inputName) input) more) := by
  induction names generalizing input with
  | nil => simp [runSources, left]
  | cons name names ih =>
    rw [List.cons_append, runSources, runSources]
    by_cases hname : name = inputName
    · simp [hname, ih, left]
    · have hother : ¬ inputName = name := fun h => hname h.symm
      simp [hname, hother, ih, left]

/-- Sources that can be read run as their texts do one after the other. -/
theorem runSources_agrees (htaken : Rereads encoding taken)
    (hread : sourceTexts w.files encoding input taken names = .ok texts) (s : State Empty) :
    (runSources w limit encoding (left taken input) names s).Agrees (w.runAll limit texts s) := by
  induction names generalizing taken texts s with
  | nil =>
    cases hread
    exact .refl _
  | cons name names ih =>
    obtain ⟨text, rest, rfl, hfirst, hrest⟩ := sourceTexts_cons_eq_ok hread
    rw [runSources_cons htaken, hfirst, Act.bind_apply_ok (Act.note_apply _ s)]
    refine (Outcome.agrees_behind _ _).trans ?_
    simp only [Act.ofExcept, pure_bind]
    exact Act.bind_agrees (.refl _) fun _ _ => ih (htaken.or_of_sourceText hfirst) hrest _

theorem runSources_agrees_of_new (w : World Empty) (limit : Nat)
    (hread : sourceTexts w.files encoding input false names = .ok texts) (s : State Empty) :
    (runSources w limit encoding input names s).Agrees (w.runAll limit texts s) :=
  runSources_agrees (rereads_false encoding) hread s

/-- At a source that cannot be read the run ends, whatever stands behind it. -/
theorem runSources_of_unreadable {earlier : List String} {e : Failure} {s : State Empty}
    (hread : sourceTexts w.files encoding input false earlier = .ok texts)
    (hrun : (w.runAll limit texts s).result = .ok ())
    (hname : sourceText w.files encoding input (earlier.contains inputName) name = .error e)
    (later : List String) :
    runSources w limit encoding input (earlier ++ name :: later) s =
      { runSources w limit encoding input earlier s with
        result := .error e
        journal := (runSources w limit encoding input earlier s).journal ++ [.running name] } := by
  have hrereads := (rereads_false encoding).or_of_sourceTexts hread
  rw [Bool.false_or] at hrereads
  have hok : (runSources w limit encoding input earlier s).result = .ok () :=
    (runSources_agrees_of_new w limit hread s).1.trans hrun
  rw [runSources_append, Act.bind_apply_of_ok hok, runSources_cons hrereads, hname,
    Act.bind_apply_ok (Act.note_apply _ _)]
  simp only [Act.ofExcept]
  rw [Act.bind_apply_error (Act.fail_apply e _)]
  simp [Outcome.behind_mk]

/-! ## Running options -/

/-- Options that name files, perhaps a text to run behind them, and an encoding. Nothing is logged. -/
def quiet (names : List String) (text encoding : Option String) : Options where
  files := names
  text := text.map some
  encoding := encoding
  verbose := false

theorem sources_quiet {text : Option String} (h : names ≠ [] ∨ text.isSome = true) :
    sources (quiet names text encoding) = names := by
  unfold sources quiet
  rw [if_neg]
  rcases h with h | h
  · simp [h]
  · obtain ⟨t, rfl⟩ := Option.isSome_iff_exists.mp h
    simp

theorem runOptions_quiet {text : Option String} (h : names ≠ [] ∨ text.isSome = true) :
    runOptions w limit input (quiet names text encoding) =
      (do runSources w limit encoding input names; w.runAll limit text.toList) := by
  unfold runOptions
  rw [sources_quiet h]
  cases text with
  | none => rfl
  | some text => simp [quiet, World.runAll]

/-- Outcomes that agree are reported alike, if nothing is logged. -/
theorem report_congr {o o' : Options} (ho : o.verbose = false) (ho' : o'.verbose = false)
    {r r' : Outcome Empty Unit} (h : r.Agrees r') (launch : Launch) :
    report launch o r = report launch o' r' := by
  obtain ⟨hresult, hstate, houtput⟩ := h
  unfold report log
  rw [hresult, hstate, houtput, ho, ho']
  rfl

/-- What a run without a log shows: the status, what was written, and the message of its end. -/
def shown (launch : Launch) (files : Files) (limit : Nat) (input : List UInt8) (names : List String)
    (text encoding : Option String) : Report :=
  report launch (quiet names text encoding)
    (outcome files limit input (quiet names text encoding))

theorem outcome_quiet_agrees (files : Files) (limit : Nat) (text : Option String)
    (hsome : names ≠ [] ∨ text.isSome = true)
    (hread : sourceTexts files encoding input false names = .ok texts) :
    (outcome files limit input (quiet names text encoding)).Agrees
      ((World.ofFiles files).runAll limit (texts ++ text.toList) (State.new.install encoding)) := by
  have hsources := runSources_agrees_of_new (World.ofFiles files) limit hread
    (State.new.install encoding)
  unfold outcome
  rw [runOptions_quiet hsome, World.runAll_append]
  exact Act.bind_agrees hsources fun _ _ => .refl _

/-- A run that ended at a source has the text behind it left out as well. -/
theorem outcome_quiet_of_error {files : Files} (hnames : names ≠ []) (text : Option String)
    {e : Failure} (h : (runSources (World.ofFiles files) limit encoding input names
      (State.new.install encoding)).result = .error e) :
    outcome files limit input (quiet names text encoding) =
      runSources (World.ofFiles files) limit encoding input names (State.new.install encoding) := by
  unfold outcome
  rw [runOptions_quiet (.inl hnames)]
  show (runSources _ _ _ _ _ >>= _) (State.new.install encoding) = _
  rw [Act.bind_apply_of_error h, ← h]

/-- **The sources of a command line are one program.**

* Files that can be read, and perhaps a text behind them, give the same report as the one text that joins
  them all by line breaks, if every source but the last is closed. The first name of standard input stands
  for all of it, and any later one for nothing.
* If a source is unreadable and all before it ran without an error, the report shows what these wrote and
  the message of the unreadable source, with the status 1. Up to the last note the run is the one that ends
  with this source, so nothing behind it was read or run. -/
theorem sources_run_as_one_program (launch : Launch) (files : Files) (limit : Nat)
    (input : List UInt8) (encoding : Option String) :
    (∀ (names : List String) (text : Option String) (texts : List String),
      names ≠ [] ∨ text.isSome = true →
      sourceTexts files encoding input false names = .ok texts →
      (∀ t ∈ (texts ++ text.toList).dropLast, isClosed t = true) →
      shown launch files limit input names text encoding =
        shown launch files limit input [] (some ("\n".intercalate (texts ++ text.toList)))
          encoding) ∧
    ∀ (earlier : List String) (name : String) (later : List String) (text : Option String)
      (texts : List String) (origin : Origin) (reason : ReadError),
      sourceTexts files encoding input false earlier = .ok texts →
      ((World.ofFiles files).runAll limit texts (State.new.install encoding)).result = .ok () →
      sourceText files encoding input (earlier.contains inputName) name =
        .error (.error (.sourceUnreadable origin reason)) →
      shown launch files limit input (earlier ++ name :: later) text encoding =
          ⟨.ok 1, ((World.ofFiles files).runAll limit texts (State.new.install encoding)).output,
            "SourceUnreadable: " ++ (MachineError.sourceUnreadable origin reason).message ++ "\n"⟩ ∧
        outcome files limit input (quiet (earlier ++ name :: later) text encoding) =
          runSources (World.ofFiles files) limit encoding input (earlier ++ [name])
            (State.new.install encoding) := by
  refine ⟨?_, ?_⟩
  · intro names text texts hsome hread hclosed
    have hparts := outcome_quiet_agrees files limit text hsome hread
    have hnone : sourceTexts files encoding input false [] = .ok [] := rfl
    have hwhole := outcome_quiet_agrees files limit
      (some ("\n".intercalate (texts ++ text.toList))) (.inr rfl) hnone
    have hjoin : (World.ofFiles files).runAll limit ["\n".intercalate (texts ++ text.toList)] =
        (World.ofFiles files).runAll limit (texts ++ text.toList) := by
      rw [← World.run_join _ limit _ hclosed]
      simp [World.runAll]
    rw [List.nil_append, Option.toList_some, hjoin] at hwhole
    exact report_congr rfl rfl (hparts.trans hwhole.symm) launch
  · intro earlier name later text texts origin reason hread hrun hname
    have hends := runSources_of_unreadable (w := World.ofFiles files) hread hrun hname
    have houtcome := outcome_quiet_of_error (by simp) text (congrArg Outcome.result (hends later))
    have hwrote := (runSources_agrees_of_new (World.ofFiles files) limit hread
      (State.new.install encoding)).2.2
    refine ⟨?_, ?_⟩
    · unfold shown
      rw [houtcome, hends later]
      simp [report, log, quiet, MachineError.label, hwrote]
    · rw [houtcome, hends later, hends []]

/-- One file, which opens a unit and does not close it. -/
def openingFile : Files := fun path =>
  if path = "甲" then .ok (Encoding.Utf8.encode "1 書く 「三」は 3".toList) else .error .notFound

/-- The unit of the file is closed by standard input, and its word is called by the text; and where a
file is missing, only what was written before it is shown. -/
theorem sources_run_as_one_program_opening :
    shown .command openingFile World.callLimit (Encoding.Utf8.encode "です".toList) ["甲", "-", "-"]
        (some "三 書く") (some "utf-8") =
      shown .command openingFile World.callLimit (Encoding.Utf8.encode "です".toList) []
        (some "1 書く 「三」は 3\nです\n\n三 書く") (some "utf-8") ∧
    shown .command openingFile World.callLimit (Encoding.Utf8.encode "です".toList)
        ["甲", "-", "無", "甲"] (some "三 書く") (some "utf-8") =
      ⟨.ok 1, "1",
        "SourceUnreadable: cannot read 無: [Errno 2] No such file or directory: '無'\n"⟩ := by
  obtain ⟨hone, hunreadable⟩ := sources_run_as_one_program .command openingFile World.callLimit
    (Encoding.Utf8.encode "です".toList) (some "utf-8")
  refine ⟨?_, ?_⟩
  · have hread : sourceTexts openingFile (some "utf-8") (Encoding.Utf8.encode "です".toList) false
        ["甲", "-", "-"] = .ok ["1 書く 「三」は 3", "です", ""] := by decide +kernel
    have hjoin : "\n".intercalate (["1 書く 「三」は 3", "です", ""] ++ (some "三 書く").toList) =
        "1 書く 「三」は 3\nです\n\n三 書く" := by decide +kernel
    have hreport := hone _ (some "三 書く") _ (.inl (by simp)) hread (by decide +kernel)
    rw [hjoin] at hreport
    exact hreport
  · have hread : sourceTexts openingFile (some "utf-8") (Encoding.Utf8.encode "です".toList) false
        ["甲", "-"] = .ok ["1 書く 「三」は 3", "です"] := by decide +kernel
    have hmissing : sourceText openingFile (some "utf-8") (Encoding.Utf8.encode "です".toList)
        (["甲", "-"].contains inputName) "無" =
          .error (.error (.sourceUnreadable (.file "無") (.notOpened "無" .notFound))) := by
      decide +kernel
    have hreport := hunreadable ["甲", "-"] "無" ["甲"] (some "三 書く") _ _ _ hread
      (by decide +kernel) hmissing
    have hwrote : ((World.ofFiles openingFile).runAll World.callLimit ["1 書く 「三」は 3", "です"]
        (State.new.install (some "utf-8"))).output = "1" := by decide +kernel
    have hmessage : "SourceUnreadable: " ++ (MachineError.sourceUnreadable (.file "無")
        (.notOpened "無" .notFound)).message ++ "\n" =
          "SourceUnreadable: cannot read 無: [Errno 2] No such file or directory: '無'\n" := by
      decide +kernel
    rw [hwrote, hmessage] at hreport
    exact hreport.1

end CommandLine

end WordMachine
