import WordMachine.CommandLine.Options
import WordMachine.Machine.Execute

/-!
# The command line

The program runs its sources in order on one machine: the files, of which `-` is standard input, and
then the text given by a switch. Without any source it runs standard input. An error of the machine
is reported on the error stream and gives the status 1; a fault escapes. With the verbose switch all
that the machine notes is logged on the error stream.
-/

namespace WordMachine.CommandLine

/-! ## Texts -/

/-- The line that says how the program is used. -/
def usage : String :=
  "usage: kotoba [-h] [-e TEXT] [--encoding ENCODING] [-v] [files ...]\n"

/-- The help text. -/
def help : String :=
  usage ++ "\n" ++
  "Run kotoba programs.\n" ++
  "\n" ++
  "positional arguments:\n" ++
  "  files                 source files to run in order (\"-\" is stdin)\n" ++
  "\n" ++
  "options:\n" ++
  "  -h, --help            show this help message and exit\n" ++
  "  -e TEXT, --eval TEXT  program text to run after the files\n" ++
  "  --encoding ENCODING   encoding of the sources (default: utf-8)\n" ++
  "  -v, --verbose         log what the machine does\n"

/-- How the program was started. Started as a module, it logs under another name and does not log
which sources it runs. -/
inductive Launch where
  | command
  | asModule
deriving DecidableEq, Repr

/-- The name under which the command line logs. -/
def Launch.logger : Launch → String
  | command => "kotoba.cli"
  | asModule => "__main__"

/-- A line of the log. -/
def logLine (logger level message : String) : String :=
  logger ++ ": " ++ level ++ ": " ++ message ++ "\n"

/-- The log line of a note, if it has one. A name that cannot be written has none. -/
def noteLine? (launch : Launch) : Note → Option String
  | .compiling after =>
    after.written.toOption.map fun t => machineLine ("compiling after " ++ t)
  | .declarer name =>
    name.written.toOption.map fun t => machineLine (t ++ " is now a declarer")
  | .defining name tokens =>
    name.written.toOption.map fun t =>
      machineLine ("defining " ++ t ++ " as " ++ tokens.repr ++ " tokens")
  | .loading path => some (logLine "kotoba.natives" "DEBUG" ("loading " ++ path))
  | .running source =>
    match launch with
    | .command => some (logLine launch.logger "DEBUG" ("running " ++ source))
    | .asModule => none
where
  machineLine (message : String) : String :=
    logLine "kotoba.machine" "DEBUG" message

/-! ## Running -/

/-- The name that stands for standard input. -/
def inputName : String := "-"

/-- The sources that options name. -/
def sources (o : Options) : List String :=
  if o.files.isEmpty && o.text.isNone then [inputName] else o.files

/-- Runs sources in order. The first that names standard input gets all of it, and any later one
gets nothing. -/
def runSources (w : World Empty) (limit : Nat) (encoding : Option String) (input : List UInt8) :
    List String → Act Empty Unit
  | [] => pure ()
  | name :: rest => do
    Act.note (.running name)
    if name = inputName then
      w.run limit (← Act.ofExcept (Source.readInput encoding input))
      runSources w limit encoding [] rest
    else
      w.run limit (← Act.ofExcept (Source.read w.files encoding name))
      runSources w limit encoding input rest

/-- Runs what options ask for. -/
def runOptions (w : World Empty) (limit : Nat) (input : List UInt8) (o : Options) :
    Act Empty Unit := do
  runSources w limit o.encoding input (sources o)
  match o.text with
  | none => pure ()
  | some none => Act.fail (.fault .missingProgramText)
  | some (some text) => w.run limit text

/-- The run of options on a new machine. -/
def outcome (files : Files) (limit : Nat) (input : List UInt8) (o : Options) :
    Outcome Empty Unit :=
  runOptions (World.ofFiles files) limit input o (State.new.install o.encoding)

/-! ## Reporting -/

/-- What a run shows: its status, or the fault that escaped from it, and the two streams. -/
structure Report where
  status : Except Fault Nat
  stdout : String
  stderr : String

/-- What is logged of a run. -/
def log (launch : Launch) (o : Options) (r : Outcome Empty Unit) : String :=
  if o.verbose then String.join (r.journal.filterMap (noteLine? launch)) else ""

/-- The warning that a unit was left open. -/
def unfinished (launch : Launch) : String :=
  logLine launch.logger "WARNING" "input ended inside an unfinished definition"

/-- The report of a run. -/
def report (launch : Launch) (o : Options) (r : Outcome Empty Unit) : Report :=
  let logged := log launch o r
  match r.result with
  | .ok () =>
    ⟨.ok 0, r.output, logged ++ if 0 < r.state.depth then unfinished launch else ""⟩
  | .error (.error e) => ⟨.ok 1, r.output, logged ++ e.label ++ ": " ++ e.message ++ "\n"⟩
  | .error (.fault f) => ⟨.error f, r.output, logged⟩

/-- The report of an argument list that asks for no run. -/
def stopReport : Stop → Report
  | .help => ⟨.ok 0, help, ""⟩
  | .usage e => ⟨.ok 2, "", usage ++ "kotoba: error: " ++ e.message ++ "\n"⟩

/-- The whole program. -/
def run (launch : Launch) (files : Files) (limit : Nat) (input : List UInt8)
    (arguments : List String) : Report :=
  match Options.parse arguments with
  | .error stop => stopReport stop
  | .ok o => report launch o (outcome files limit input o)

end WordMachine.CommandLine
