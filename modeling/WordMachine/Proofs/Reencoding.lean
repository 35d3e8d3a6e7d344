import WordMachine.Proofs.InertCompiling
import WordMachine.Proofs.Logging
import WordMachine.Proofs.OneProgram
import WordMachine.Proofs.RoundTrip
import WordMachine.Proofs.Simulation

/-!
# Sources in another encoding

The same texts may be stored in one encoding or in another. If the program is told which one it is, it reads
the same: every path and standard input give texts that do not depend on the encoding
(`Source.readsAlike_of_hold`), because decoding undoes encoding.

The machines of the two runs are still not the same, for the word that loads a source keeps the name of the
encoding. So the runs are compared by a simulation. Their states differ in the dictionaries only, and there
in words that do the same, each in its own world (`Definition.ReadsAlike`). Whatever a program does with its
dictionary, and however deep sources load each other, this is kept (`World.execute_readsAlike`).
-/

namespace WordMachine

/-! ## Reading texts -/

/-- The files hold the texts in an encoding: a path cannot be opened for the same reason, or it leads to
octets that store its text. -/
def Files.Hold (files : Files) (e : Encoding) (texts : String → Except OpenError (List Char)) : Prop :=
  ∀ path, (∃ reason, texts path = .error reason ∧ files path = .error reason) ∨
    ∃ cs octets, texts path = .ok cs ∧ files path = .ok octets ∧ e.Stores cs octets

theorem Files.hold_map {e : Encoding} {encode : List Char → List UInt8}
    (h : ∀ cs, e.Stores cs (encode cs)) (texts : String → Except OpenError (List Char)) :
    Files.Hold (fun path => (texts path).map encode) e texts := by
  intro path
  dsimp only
  cases texts path with
  | error reason => exact .inl ⟨reason, rfl, rfl⟩
  | ok cs => exact .inr ⟨cs, encode cs, rfl, rfl, h cs⟩

namespace Source

/-- What is read at a path, of texts. -/
def readText (texts : String → Except OpenError (List Char)) (path : String) :
    Except Failure String :=
  if hasNull path then .error (.fault .nullInPath)
  else
    match texts path with
    | .error reason => .error (.error (.sourceUnreadable (.file path) (.notOpened path reason)))
    | .ok cs => .ok (String.ofList (Text.foldNewlines cs))

theorem read_of_opened {name path : String} (hnull : hasNull name = false)
    (hpath : hasNull path = false) {files : Files} {octets : List UInt8}
    (h : files path = .ok octets) :
    read files (some name) path = ofOctets (.file path) name octets := by
  unfold read
  simp only [hnull, hpath, h, Bool.false_eq_true, if_false]

section Stored

variable {e : Encoding} {name : String} (hname : Encoding.ofName? name = some e)
  {cs : List Char} {octets : List UInt8}
include hname

theorem ofOctets_of_decode (h : e.decode octets = .ok cs) (origin : Origin) :
    ofOctets origin name octets = .ok (String.ofList (Text.foldNewlines cs)) := by
  unfold ofOctets
  simp only [hname, h]

variable (hnull : hasNull name = false)
include hnull

theorem read_of_hold {files : Files} {texts : String → Except OpenError (List Char)}
    (h : files.Hold e texts) (path : String) : read files (some name) path = readText texts path := by
  unfold read readText
  simp only [hnull, Bool.false_eq_true, if_false]
  split
  · rfl
  · obtain ⟨reason, htext, hfile⟩ | ⟨cs, octets, htext, hfile, hstores⟩ := h path
    · simp only [htext, hfile]
    · simp only [htext, hfile, ofOctets_of_decode hname (Encoding.decode_of_stores hstores)]

theorem readInput_of_decode (h : e.decode octets = .ok cs) :
    readInput (some name) octets = .ok (String.ofList (Text.foldNewlines cs)) := by
  unfold readInput
  simp only [hnull, Bool.false_eq_true, if_false]
  exact ofOctets_of_decode hname h _

end Stored

/-- Two ways to read, from two stores: every path and standard input give the same, and standard input that
was read already gives the same once more. -/
structure ReadsAlike (files files' : Files) (encoding encoding' : Option String)
    (input input' : List UInt8) : Prop where
  read : ∀ path, Source.read files' encoding' path = Source.read files encoding path
  readInput : Source.readInput encoding' input' = Source.readInput encoding input
  reread : Source.readInput encoding' [] = Source.readInput encoding []

theorem readsAlike_of_hold {e e' : Encoding} {name name' : String}
    (hname : Encoding.ofName? name = some e) (hname' : Encoding.ofName? name' = some e')
    (hnull : hasNull name = false) (hnull' : hasNull name' = false) {files files' : Files}
    {texts : String → Except OpenError (List Char)} (hfiles : files.Hold e texts)
    (hfiles' : files'.Hold e' texts) {text : List Char} {input input' : List UInt8}
    (hinput : e.Stores text input) (hinput' : e'.Stores text input') :
    ReadsAlike files files' (some name) (some name') input input' where
  read path := by
    rw [read_of_hold hname hnull hfiles, read_of_hold hname' hnull' hfiles']
  readInput := by
    rw [readInput_of_decode hname hnull (Encoding.decode_of_stores hinput),
      readInput_of_decode hname' hnull' (Encoding.decode_of_stores hinput')]
  reread := by
    rw [readInput_of_decode hname hnull (decode_nil e),
      readInput_of_decode hname' hnull' (decode_nil e')]

end Source

/-! ## States that differ in related words -/

variable {Op : Type}

/-- States that differ in their dictionaries at most, and there in words that are related. -/
structure State.DefinedAlike (D : Definition Op → Definition Op → Prop) (s r : State Op) : Prop where
  units : s.SameUnits r
  dictionary : ∀ name, DefinitionsRelated D s r name

section DefinedAlike

variable {D : Definition Op → Definition Op → Prop}

theorem sameStack_definedAlike : SameStack (State.DefinedAlike D) where
  stack h := h.units.stack
  restack _ h := ⟨⟨rfl, h.units.buffer, h.units.depth, h.units.declarers⟩, h.dictionary⟩

variable (hprocedure : ∀ tokens, D (.procedure tokens) (.procedure tokens))
include hprocedure

theorem State.DefinedAlike.compiled {s r : State Op} (h : s.DefinedAlike D r) (t : Token) :
    (s.compiled t).DefinedAlike D (r.compiled t) := by
  refine ⟨?_, fun name => ?_⟩
  · rw [h.units.eq_withDictionary, compiled_withDictionary]
    exact sameUnits_withDictionary _ _
  · have htop : r.top = s.top := by rw [top, top, h.units.stack]
    unfold DefinitionsRelated
    simp only [State.compiled, htop, h.units.buffer]
    split
    · exact (h.dictionary name).insert s.top (hprocedure s.buffer)
    · exact h.dictionary name

theorem simulation_definedAlike :
    Simulation (fun _ => False) (State.DefinedAlike D) (· = ·) where
  toTokensRelated := tokensRelated_eq
  depth h := h.units.depth
  declarers h _ := by rw [h.units.declarers]
  enter h := ⟨⟨h.units.stack, h.units.buffer, congrArg (· + 1) h.units.depth, h.units.declarers⟩,
    h.dictionary⟩
  push := sameStack_definedAlike.push
  pop := sameStack_definedAlike.pop
  compile := by
    rintro s r t u h rfl -
    exact sameStack_definedAlike.compile h rfl (h.compiled hprocedure t)

end DefinedAlike

/-! ## Words that read alike -/

/-- Words that do the same, each in its own world: the same word, if it does not read files, or words that
load the same at every path. -/
inductive Definition.ReadsAlike (files files' : Files) :
    Definition Empty → Definition Empty → Prop where
  | same {d : Definition Empty} (h : ∀ encoding, d ≠ .builtin (.load encoding)) :
    ReadsAlike files files' d d
  | load {encoding encoding' : Option String}
    (h : ∀ path, Source.read files' encoding' path = Source.read files encoding path) :
    ReadsAlike files files' (.builtin (.load encoding)) (.builtin (.load encoding'))

section Worlds

variable (files files' : Files)

theorem simulation_readsAlike :
    Simulation (fun _ => False) (State.DefinedAlike (Definition.ReadsAlike files files')) (· = ·) :=
  simulation_definedAlike fun _ => .same nofun

theorem Builtin.execute_of_not_load {b : Builtin} (h : ∀ encoding, b ≠ .load encoding)
    (call : Act.Call Op) : b.execute files' call = b.execute files call := by
  cases b with
  | load encoding => exact absurd rfl (h encoding)
  | _ => rfl

theorem World.perform_readsAlike {call call' : Act.Call Empty}
    (hcall : Act.CallsSimulated (fun _ => False)
      (State.DefinedAlike (Definition.ReadsAlike files files')) call call')
    {d d' : Definition Empty} (h : d.ReadsAlike files files' d') :
    Act.Simulated (fun _ => False) (State.DefinedAlike (Definition.ReadsAlike files files'))
      ((World.ofFiles files).perform call d) ((World.ofFiles files').perform call' d') := by
  have sim := simulation_readsAlike files files'
  cases h with
  | same hd =>
    cases d with
    | builtin b =>
      have hb : b.execute files' call' = b.execute files call' :=
        Builtin.execute_of_not_load files files' (fun encoding hb => hd encoding (by rw [hb])) call'
      show Act.Simulated _ _ (b.execute files call) (b.execute files' call')
      rw [hb]
      exact sameStack_definedAlike.builtin sim hcall files b
    | method m => exact sim.method m
    | custom op => exact op.elim
    | procedure tokens => exact sim.interpret hcall fun _ _ => rfl
  | load hread =>
    -- the same path lies on both stacks, and what is read there is the same text
    refine .bind sim.popString fun path => .bind (.note _ _) fun _ => ?_
    show Act.Simulated _ _ (Act.ofExcept (Source.read files _ path) >>= _)
      (Act.ofExcept (Source.read files' _ path) >>= _)
    rw [hread]
    exact .bind (.ofExcept _) fun text => sim.runWords hcall _

theorem World.execute_readsAlike (limit : Nat) :
    Act.CallsSimulated (fun _ => False) (State.DefinedAlike (Definition.ReadsAlike files files'))
      ((World.ofFiles files).execute limit) ((World.ofFiles files').execute limit) :=
  World.execute_simulated_between _ _ (fun h name _ => h.dictionary name)
    (fun hcall _ _ => World.perform_readsAlike files files' hcall) limit

end Worlds

/-! ## New machines -/

/-- A built-in word, if it loads then in this encoding. -/
def Builtin.storedIn (encoding : Option String) : Builtin → Builtin
  | load _ => load encoding
  | b => b

theorem Builtin.all_eq_map (encoding : Option String) :
    all encoding = (all none).map fun w => (w.1, w.2.storedIn encoding) :=
  rfl

section Install

variable {files files' : Files} {encoding encoding' : Option String}
  (hread : ∀ path, Source.read files' encoding' path = Source.read files encoding path)
include hread

theorem Definition.readsAlike_storedIn (b : Builtin) :
    ReadsAlike files files' (.builtin (b.storedIn encoding)) (.builtin (b.storedIn encoding')) := by
  cases b with
  | load _ => exact .load hread
  | _ => exact .same nofun

theorem State.DefinedAlike.insertAll {s r : State Empty}
    (h : s.DefinedAlike (Definition.ReadsAlike files files') r) (words : List (String × Builtin)) :
    State.DefinedAlike (Definition.ReadsAlike files files')
      (s.withDictionary (words.foldl
        (fun d w => d.insert (.text w.1) (.builtin (w.2.storedIn encoding))) s.dictionary))
      (r.withDictionary (words.foldl
        (fun d w => d.insert (.text w.1) (.builtin (w.2.storedIn encoding'))) r.dictionary)) := by
  induction words generalizing s r with
  | nil => exact h
  | cons w words ih =>
    have hword : State.DefinedAlike (Definition.ReadsAlike files files')
        (s.withDictionary (s.dictionary.insert (.text w.1) (.builtin (w.2.storedIn encoding))))
        (r.withDictionary (r.dictionary.insert (.text w.1) (.builtin (w.2.storedIn encoding')))) := by
      refine ⟨⟨h.units.stack, h.units.buffer, h.units.depth, h.units.declarers⟩, fun name => ?_⟩
      exact (h.dictionary name).insert (.text w.1) (Definition.readsAlike_storedIn hread w.2)
    exact ih hword

theorem State.definedAlike_install :
    State.DefinedAlike (Definition.ReadsAlike files files') (State.new.install encoding)
      (State.new.install encoding') := by
  have hnew : State.DefinedAlike (Definition.ReadsAlike files files') State.new State.new :=
    ⟨⟨rfl, rfl, rfl, rfl⟩, fun name => .inl ⟨by simp [new], by simp [new]⟩⟩
  have hall := hnew.insertAll hread (Builtin.all none)
  unfold install Dictionary.install
  rw [Builtin.all_eq_map encoding, Builtin.all_eq_map encoding', List.foldl_map, List.foldl_map]
  exact hall

end Install

/-! ## Whole command lines -/

namespace Encoding

/-- The usual name of an encoding. -/
def name : Encoding → String
  | utf8 => "utf-8"
  | utf8Signed => "utf-8-sig"
  | ascii => "ascii"
  | latin1 => "latin-1"
  | utf16 => "utf-16"
  | utf16le => "utf-16-le"
  | utf16be => "utf-16-be"

theorem ofName?_name (e : Encoding) : ofName? e.name = some e := by
  cases e <;> decide +kernel

theorem hasNull_name (e : Encoding) : Source.hasNull e.name = false := by
  cases e <;> decide +kernel

theorem name_ne_separator (e : Encoding) : e.name ≠ Argument.separatorText := by
  cases e <;> decide

theorem classify_name (e : Encoding) : Argument.classify e.name = .ok (.plain e.name) := by
  cases e <;> rfl

end Encoding

namespace CommandLine

section Sources

variable {files files' : Files} {encoding encoding' : Option String} {input input' : List UInt8}
  {call call' : Act.Call Empty}
  (hcall : Act.CallsSimulated (fun _ => False)
    (State.DefinedAlike (Definition.ReadsAlike files files')) call call')
include hcall

theorem runSourcesBy_simulated
    (h : Source.ReadsAlike files files' encoding encoding' input input') (names : List String) :
    Act.Simulated (fun _ => False) (State.DefinedAlike (Definition.ReadsAlike files files'))
      (runSourcesBy files encoding call input names)
      (runSourcesBy files' encoding' call' input' names) := by
  have sim := simulation_readsAlike files files'
  induction names generalizing input input' with
  | nil => exact .pure ()
  | cons name names ih =>
    simp only [runSourcesBy]
    refine .bind (.note _ _) fun _ => ?_
    split
    · -- standard input is taken here, so from now on both sides read it as empty
      rw [h.readInput]
      refine .bind (.ofExcept _) fun text => .bind (sim.runWords hcall _) fun _ => ?_
      exact ih ⟨h.read, h.reread, h.reread⟩
    · rw [h.read]
      exact .bind (.ofExcept _) fun text => .bind (sim.runWords hcall _) fun _ => ih h

theorem runOptionsBy_simulated {o : Options} {name : String}
    (h : Source.ReadsAlike files files' o.encoding (some name) input input') :
    Act.Simulated (fun _ => False) (State.DefinedAlike (Definition.ReadsAlike files files'))
      (runOptionsBy files input o call) (runOptionsBy files' input' (o.stored name) call') := by
  unfold runOptionsBy
  refine .bind (runSourcesBy_simulated hcall h (sources o)) fun _ => ?_
  rw [show (o.stored name).text = o.text from rfl]
  cases o.text with
  | none => exact .pure ()
  | some text =>
    cases text with
    | none => exact .fail _
    | some text => exact (simulation_readsAlike files files').runWords hcall _

end Sources

theorem outcome_simulated {files files' : Files} {input input' : List UInt8} {o : Options}
    {name : String} (h : Source.ReadsAlike files files' o.encoding (some name) input input')
    (limit : Nat) :
    (outcome files limit input o).Simulated (fun _ => False)
      (State.DefinedAlike (Definition.ReadsAlike files files'))
      (outcome files' limit input' (o.stored name)) := by
  unfold outcome
  rw [runOptions_eq_runOptionsBy, runOptions_eq_runOptionsBy]
  exact runOptionsBy_simulated (World.execute_readsAlike files files' limit) h _ _
    (State.definedAlike_install h.read)

/-- The second argument list asks for the same as the first one, but names an encoding. -/
def AddsEncoding (e : Encoding) (arguments arguments' : List String) : Prop :=
  ∃ name o, Encoding.ofName? name = some e ∧ Source.hasNull name = false ∧
    Options.parse arguments = .ok o ∧ Options.parse arguments' = .ok (o.stored name)

theorem addsEncoding_cons (e : Encoding) {arguments : List String} {o : Options}
    (hparse : Options.parse arguments = .ok o) (hnone : ¬ Options.NamesEncoding arguments) :
    AddsEncoding e arguments (Options.encodingArgument :: e.name :: arguments) := by
  have hparse' := Options.parse_cons_encoding hparse hnone e.name_ne_separator e.classify_name
  exact ⟨e.name, o, e.ofName?_name, e.hasNull_name, hparse, hparse'⟩

/-- **The encoding does not matter.** Let files and standard input hold some texts in UTF-8, and other files
and another input hold the same texts in the encoding `e`. Take any argument list that makes sense and names
no encoding.

* The name of `e` can be put in front of it.
* However the encoding is named, the status, the fault that escapes and the output are the same as in UTF-8,
  and so is the error stream if nothing is logged. That holds for sources of the command line, for standard
  input and for sources that are loaded, however deep. -/
theorem encoding_does_not_matter {e : Encoding} {texts : String → Except OpenError (List Char)}
    {files files' : Files} (hfiles : files.Hold .utf8 texts) (hfiles' : files'.Hold e texts)
    {text : List Char} {input input' : List UInt8} (hinput : Encoding.utf8.Stores text input)
    (hinput' : e.Stores text input') {arguments : List String} {o : Options}
    (hparse : Options.parse arguments = .ok o) (hnone : ¬ Options.NamesEncoding arguments) :
    AddsEncoding e arguments (Options.encodingArgument :: e.name :: arguments) ∧
    ∀ arguments', AddsEncoding e arguments arguments' → ∀ (launch : Launch) (limit : Nat),
      (run launch files' limit input' arguments').SameButLog
        (run launch files limit input arguments) ∧
      (o.verbose = false → (run launch files' limit input' arguments').stderr =
        (run launch files limit input arguments).stderr) := by
  refine ⟨addsEncoding_cons e hparse hnone, ?_⟩
  rintro arguments' ⟨name, quiet, hname, hnull, hsame, hparse'⟩ launch limit
  obtain rfl : o = quiet := Except.ok.inj (hparse.symm.trans hsame)
  have halike : Source.ReadsAlike files files' (some "utf-8") (some name) input input' :=
    Source.readsAlike_of_hold Encoding.utf8.ofName?_name hname Encoding.utf8.hasNull_name hnull
      hfiles hfiles' hinput hinput'
  rw [← Options.encoding_of_parse hparse hnone] at halike
  obtain ⟨hresult, houtput, hstate⟩ := outcome_simulated halike limit fun _ _ => id
  rw [run_of_parse hparse, run_of_parse hparse']
  refine ⟨report_sameButLog launch launch o _ hresult houtput, fun hverbose => ?_⟩
  have hverbose' : (o.stored name).verbose = false := hverbose
  rw [stderr_report, stderr_report, log_of_quiet launch _ hverbose,
    log_of_quiet launch _ hverbose', lastWords_congr launch hresult hstate.units.depth]

/-- A file that loads another, which leaves a definition open. -/
def nestedTexts (path : String) : Except OpenError (List Char) :=
  if path = "甲" then .ok "「乙」読み込む です".toList
  else if path = "乙" then .ok "「三」は 3".toList
  else .error .notFound

/-- The report of a command line whose files and standard input are stored by `encode`. -/
def nestedReport (encode : List Char → List UInt8) (arguments : List String) : Report :=
  run .command (fun path => (nestedTexts path).map encode) World.callLimit
    (encode "三 書く".toList) arguments

/-- All is stored in UTF-16 with the high octet first; the last word is unknown in either encoding. -/
theorem encoding_does_not_matter_nested :
    let plain := nestedReport Encoding.Utf8.encode ["甲", "-", "-e", "無"]
    let marked := nestedReport (fun cs => Encoding.Utf16.mark .big ++ Encoding.Utf16.encode .big cs)
      ["--encoding", "utf-16", "甲", "-", "-e", "無"]
    marked.SameButLog plain ∧ marked.stderr = plain.stderr ∧
      plain.stdout = "3" ∧ plain.stderr = "UnknownName: unknown name: 無\n" := by
  intro plain marked
  have hutf8 : ∀ cs, Encoding.utf8.Stores cs (Encoding.Utf8.encode cs) := fun _ => .inl rfl
  have hutf16 : ∀ cs, Encoding.utf16.Stores cs
      (Encoding.Utf16.mark .big ++ Encoding.Utf16.encode .big cs) := fun _ => .inr ⟨rfl, rfl⟩
  have hparse : Options.parse ["甲", "-", "-e", "無"] =
      .ok { files := ["甲", "-"], text := some (some "無") } := rfl
  have hnone : ¬ Options.NamesEncoding ["甲", "-", "-e", "無"] := by
    rintro ⟨as, has, short, attached, hmem⟩
    cases has
    simp at hmem
  obtain ⟨hadds, hsame⟩ := encoding_does_not_matter (Files.hold_map hutf8 nestedTexts)
    (Files.hold_map hutf16 nestedTexts) (hutf8 _) (hutf16 _) hparse hnone
  obtain ⟨hreport, hstderr⟩ := hsame _ hadds .command World.callLimit
  exact ⟨hreport, hstderr rfl, by decide +kernel, by decide +kernel⟩

end CommandLine

end WordMachine
