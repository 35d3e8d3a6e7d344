import WordMachine.Proofs.Inclusion
import WordMachine.Proofs.OneProgram
import WordMachine.Proofs.Reencoding
import WordMachine.Proofs.Strictness

/-!
# Sources that cannot be read

A file is read or it is not, and the decoders decide it: the text is one that the octets are read as
(`read_eq_ok_iff`). If the file cannot be opened, or its octets are malformed, reading fails with an error of
the machine that names the path (`exists_reason_of_read`). One input slips through. UTF-16 that would decode
but has no mark is not malformed, so it is no error of the machine: it is a fault
(`read_eq_fault_iff`, `unmarked_source_escapes`).

Whatever the failure is, the word that loads a source and the command line pass it on as it is. So an error
is reported with the status 1, and the fault escapes from the program.
-/

namespace WordMachine

/-! ## Reading -/

namespace Source

variable {files : Files} {e : Encoding} {path : String}

section Named

variable (hpath : hasNull path = false)
include hpath

theorem read_of_notOpened {reason : OpenError} (h : files path = .error reason) :
    read files (some e.name) path =
      .error (.error (.sourceUnreadable (.file path) (.notOpened path reason))) := by
  unfold read
  simp only [e.hasNull_name, hpath, h, Bool.false_eq_true, if_false]

/-- All that reading may come to. -/
theorem read_cases (files : Files) (e : Encoding) :
    (∃ octets cs, files path = .ok octets ∧ e.Reads octets cs ∧
      read files (some e.name) path = .ok (String.ofList (Text.foldNewlines cs))) ∨
    (∃ reason, read files (some e.name) path =
      .error (.error (.sourceUnreadable (.file path) reason))) ∨
    ((e = .utf16 ∧ ∃ octets, files path = .ok octets ∧ Encoding.Unmarked octets) ∧
      read files (some e.name) path = .error (.fault .missingByteOrderMark)) := by
  cases hfile : files path with
  | error reason => exact .inr (.inl ⟨_, read_of_notOpened hpath hfile⟩)
  | ok octets =>
    have hread := read_of_opened e.hasNull_name hpath hfile
    simp only [ofOctets, e.ofName?_name] at hread
    cases hdecode : e.decode octets with
    | ok cs =>
      simp only [hdecode] at hread
      exact .inl ⟨octets, cs, rfl, Encoding.decode_eq_ok_iff.mp hdecode, hread⟩
    | error reason =>
      cases reason with
      | malformed m =>
        simp only [hdecode] at hread
        exact .inr (.inl ⟨_, hread⟩)
      | missingMark =>
        -- octets that decode and are refused all the same; no error of the machine covers them
        simp only [hdecode] at hread
        obtain ⟨he, hunmarked⟩ := Encoding.decode_eq_missingMark_iff.mp hdecode
        exact .inr (.inr ⟨⟨he, octets, rfl, hunmarked⟩, hread⟩)

theorem read_eq_ok_iff {text : String} :
    read files (some e.name) path = .ok text ↔
      ∃ octets cs, files path = .ok octets ∧ e.Reads octets cs ∧
        text = String.ofList (Text.foldNewlines cs) := by
  constructor
  · intro h
    rcases read_cases hpath files e with ⟨octets, cs, hfile, hreads, hread⟩ | ⟨reason, hread⟩ |
      ⟨-, hread⟩
    · exact ⟨octets, cs, hfile, hreads, Except.ok.inj (h.symm.trans hread)⟩
    · cases hread.symm.trans h
    · cases hread.symm.trans h
  · rintro ⟨octets, cs, hfile, hreads, rfl⟩
    rw [read_of_opened e.hasNull_name hpath hfile]
    exact ofOctets_of_decode e.ofName?_name (Encoding.decode_eq_ok_iff.mpr hreads) (.file path)

theorem exists_reason_of_read {error : MachineError}
    (h : read files (some e.name) path = .error (.error error)) :
    ∃ reason, error = .sourceUnreadable (.file path) reason := by
  rcases read_cases hpath files e with ⟨octets, cs, -, -, hread⟩ | ⟨reason, hread⟩ | ⟨-, hread⟩
  · cases hread.symm.trans h
  · cases hread.symm.trans h
    exact ⟨reason, rfl⟩
  · cases hread.symm.trans h

theorem read_eq_fault_iff {fault : Fault} :
    read files (some e.name) path = .error (.fault fault) ↔
      fault = .missingByteOrderMark ∧ e = .utf16 ∧
        ∃ octets, files path = .ok octets ∧ Encoding.Unmarked octets := by
  constructor
  · intro h
    rcases read_cases hpath files e with ⟨octets, cs, -, -, hread⟩ | ⟨reason, hread⟩ |
      ⟨hunmarked, hread⟩
    · cases hread.symm.trans h
    · cases hread.symm.trans h
    · cases hread.symm.trans h
      exact ⟨rfl, hunmarked⟩
  · rintro ⟨rfl, he, octets, hfile, hunmarked⟩
    have hdecode := Encoding.decode_eq_missingMark_iff.mpr ⟨he, hunmarked⟩
    rw [read_of_opened e.hasNull_name hpath hfile]
    simp only [ofOctets, e.ofName?_name, hdecode]

end Named

end Source

/-! ## Whoever wanted the source -/

/-- Loading fails as reading does. The path is off the stack then, and nothing was written. -/
theorem Builtin.execute_load_of_unreadable {Op : Type} {files : Files} {encoding : Option String}
    {path : String} {failure : Failure} (h : Source.read files encoding path = .error failure)
    (call : Act.Call Op) {s : State Op} {below : List Value} (hs : s.stack = .text path :: below) :
    (Builtin.load encoding).execute files call s =
      ⟨.error failure, { s with stack := below }, "", [.loading path]⟩ := by
  rw [execute, Act.bind_apply_ok (popString_apply hs), Act.bind_apply_ok (Act.note_apply _ _), h,
    Act.ofExcept, Act.bind_apply_error (Act.fail_apply failure _)]
  rfl

namespace CommandLine

/-- The report of a run that wrote something and then failed, if nothing is logged. -/
def Report.ofFailure (output : String) : Failure → Report
  | .error e => ⟨.ok 1, output, e.label ++ ": " ++ e.message ++ "\n"⟩
  | .fault f => ⟨.error f, output, ""⟩

/-- Up to a source that cannot be read the program runs, and there it fails as reading does. -/
theorem shown_of_unreadable {files : Files} {limit : Nat} {input : List UInt8}
    {encoding : Option String} {earlier texts : List String} {name : String} {failure : Failure}
    (hread : sourceTexts files encoding input false earlier = .ok texts)
    (hrun : ((World.ofFiles files).runAll limit texts (State.new.install encoding)).result = .ok ())
    (hname : sourceText files encoding input (earlier.contains inputName) name = .error failure)
    (launch : Launch) (later : List String) (text : Option String) :
    shown launch files limit input (earlier ++ name :: later) text encoding =
      Report.ofFailure
        ((World.ofFiles files).runAll limit texts (State.new.install encoding)).output failure := by
  have hends := runSources_of_unreadable (w := World.ofFiles files) hread hrun hname later
  have houtcome := outcome_quiet_of_error (by simp) text (congrArg Outcome.result hends)
  have hwrote := (runSources_agrees_of_new (World.ofFiles files) limit hread
    (State.new.install encoding)).2.2
  unfold shown
  rw [houtcome, hends]
  cases failure with
  | error e => simp [report, log, quiet, hwrote, Report.ofFailure]
  | fault f => simp [report, log, quiet, hwrote, Report.ofFailure]

/-- **A source that cannot be read is an error of the machine, unless it is UTF-16 without its mark.** Let a
path hold no U+0000, and let the encoding and the state of the file system be any.

* The text of a file is one that its octets are read as, with its line ends made line feeds.
* An error of the machine says that this source cannot be read, and why.
* There is one fault, and it is raised exactly by octets of UTF-16 that would decode but have no mark.
* A word that loads the source fails as reading it does, and so does the command line behind sources that
  ran to their end: with the status 1 and the message of the error, or by letting the fault escape. -/
theorem unreadable_sources (files : Files) (e : Encoding) {path : String}
    (hpath : Source.hasNull path = false) :
    (∀ text, Source.read files (some e.name) path = .ok text ↔
      ∃ octets cs, files path = .ok octets ∧ e.Reads octets cs ∧
        text = String.ofList (Text.foldNewlines cs)) ∧
    (∀ error, Source.read files (some e.name) path = .error (.error error) →
      ∃ reason, error = .sourceUnreadable (.file path) reason ∧
        error.message = "cannot read " ++ path ++ ": " ++ reason.text) ∧
    (∀ fault, Source.read files (some e.name) path = .error (.fault fault) ↔
      fault = .missingByteOrderMark ∧ e = .utf16 ∧
        ∃ octets, files path = .ok octets ∧ Encoding.Unmarked octets) ∧
    ∀ failure, Source.read files (some e.name) path = .error failure →
      (∀ (Op : Type) (call : Act.Call Op) (s : State Op) (below : List Value),
        s.stack = .text path :: below →
        (Builtin.load (some e.name)).execute files call s =
          ⟨.error failure, { s with stack := below }, "", [.loading path]⟩) ∧
      (path ≠ inputName → ∀ (launch : Launch) (limit : Nat) (input : List UInt8)
        (earlier later : List String) (text : Option String) (texts : List String),
        sourceTexts files (some e.name) input false earlier = .ok texts →
        ((World.ofFiles files).runAll limit texts (State.new.install (some e.name))).result =
          .ok () →
        shown launch files limit input (earlier ++ path :: later) text (some e.name) =
          Report.ofFailure ((World.ofFiles files).runAll limit texts
            (State.new.install (some e.name))).output failure) := by
  refine ⟨fun text => Source.read_eq_ok_iff hpath, ?_, fun fault => Source.read_eq_fault_iff hpath, ?_⟩
  · intro error h
    obtain ⟨reason, rfl⟩ := Source.exists_reason_of_read hpath h
    exact ⟨reason, rfl, rfl⟩
  · intro failure h
    refine ⟨fun Op call s below hs => Builtin.execute_load_of_unreadable h call hs, ?_⟩
    intro hname launch limit input earlier later text texts hread hrun
    have hsource : sourceText files (some e.name) input (earlier.contains inputName) path =
        .error failure := by
      rw [sourceText, if_neg hname, h]
    exact shown_of_unreadable hread hrun hsource launch later text

/-- Two files, of which the second one is no UTF-8. -/
def brokenFile : Files := fun path =>
  if path = "甲" then .ok (Encoding.Utf8.encode "1 書く".toList)
  else if path = "乙" then .ok [0xFF]
  else .error .notFound

/-- The first file writes, the second one cannot be decoded, and the third one is not looked for. -/
theorem unreadable_sources_brokenFile :
    Source.hasNull "乙" = false ∧
    shown .command brokenFile World.callLimit [] ["甲", "乙", "無"] (some "書く") (some "utf-8") =
      ⟨.ok 1, "1", "SourceUnreadable: cannot read 乙: " ++
        "'utf-8' codec can't decode byte 0xff in position 0: invalid start byte\n"⟩ := by
  have hpath : Source.hasNull "乙" = false := by decide +kernel
  have hunread : Source.read brokenFile (some Encoding.utf8.name) "乙" =
      .error (.error (.sourceUnreadable (.file "乙")
        (.malformed ⟨.utf8, 0, 0, 0xFF, .invalidStart⟩))) := by decide +kernel
  have hread : sourceTexts brokenFile (some Encoding.utf8.name) [] false ["甲"] =
      .ok ["1 書く"] := by decide +kernel
  have hwrote : ((World.ofFiles brokenFile).runAll World.callLimit ["1 書く"]
      (State.new.install (some Encoding.utf8.name))).output = "1" := by decide +kernel
  obtain ⟨-, -, -, hfails⟩ := unreadable_sources brokenFile .utf8 hpath
  have hshown := (hfails _ hunread).2 (by decide) .command World.callLimit [] ["甲"] ["無"]
    (some "書く") ["1 書く"] hread (by decide +kernel)
  rw [hwrote] at hshown
  refine ⟨hpath, hshown.trans (congrArg (Report.mk (.ok 1) "1") ?_)⟩
  decide +kernel

/-- UTF-16 without its mark is read by nobody: the fault escapes from the program. -/
theorem unmarked_source_escapes :
    Source.read (fun _ => .ok [0x31, 0x00]) (some "utf-16") "f" =
      .error (.fault .missingByteOrderMark) ∧
    (run .command (fun _ => .ok [0x31, 0x00]) World.callLimit [] ["--encoding", "utf-16", "f"]).status =
      .error .missingByteOrderMark := by
  constructor
  · decide +kernel
  · decide +kernel

end CommandLine

end WordMachine
