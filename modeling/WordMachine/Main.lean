import WordMachine.CommandLine
import WordMachine.Console

/-!
# The program

The outer layer: it reads files, standard input and arguments, and prints what the library answers.
Started under the name `console` it is the console, and otherwise the command line.

The library runs on files that are known beforehand. A run notes every path that it asks for, so the
program starts with no files, reads the first path that the run asked for in vain, and runs again,
until nothing is missing. Up to the first missing file each run is the same as the last.
-/

namespace WordMachine.Program

/-! ## Files -/

/-- What opening some paths gave. -/
abbrev Shelf := List (String × Except OpenError (List UInt8))

/-- The files on a shelf. -/
def Shelf.files (shelf : Shelf) : Files := fun path =>
  (shelf.lookup path).getD (.error .notFound)

/-- The path that a note is about. -/
def askedPath? : Note → Option String
  | .loading path => some path
  | .running source => if source = CommandLine.inputName then none else some source
  | _ => none

/-- The first path that a run asked for and that is not on the shelf. -/
def missing? (shelf : Shelf) (journal : List Note) : Option String :=
  (journal.filterMap askedPath?).find? fun path => (shelf.lookup path).isNone

/-- The reason why a file could not be opened. A system code may come negated. -/
def openError : IO.Error → OpenError
  | .noFileOrDirectory _ _ _ => .notFound
  | .permissionDenied _ _ _ => .denied
  | .inappropriateType _ code text => byCode code text
  | .resourceExhausted _ code text => byCode code text
  | .invalidArgument _ code text => byCode code text
  | .otherError code text => byCode code text
  | e => .other 5 (toString e)
where
  byCode (code : UInt32) (text : String) : OpenError :=
    let code := min code.toNat (-code).toNat
    ([.notADirectory, .isADirectory, .nameTooLong].find? fun (e : OpenError) => e.code = code).getD
      (.other code text)

/-- Opens a file and reads it whole. -/
def openFile (path : String) : IO (Except OpenError (List UInt8)) := do
  try
    return .ok (← IO.FS.readBinFile path).toList
  catch e => return .error (openError e)

/-- Runs with the files that the run asks for. -/
partial def withFiles {α : Type} (run : Files → Outcome Empty α) (shelf : Shelf := []) :
    IO (Outcome Empty α) := do
  let o := run shelf.files
  match missing? shelf o.journal with
  | none => return o
  | some path => withFiles run ((path, ← openFile path) :: shelf)

/-! ## The command line -/

/-- Reads a stream to its end. -/
partial def readAll (stream : IO.FS.Stream) (got : ByteArray := .empty) : IO ByteArray := do
  let more ← stream.read 65536
  if more.isEmpty then return got else readAll stream (got ++ more)

/-- Prints a report and gives its status. -/
def print (r : CommandLine.Report) : IO UInt32 := do
  IO.print r.stdout
  IO.eprint r.stderr
  match r.status with
  | .ok status => return status.toUInt32
  | .error f =>
    IO.eprintln f.message
    return 1

/-- The command line. -/
def commandLine (arguments : List String) : IO UInt32 := do
  match Options.parse arguments with
  | .error stop => print (CommandLine.stopReport stop)
  | .ok o =>
    let input ←
      if CommandLine.inputName ∈ CommandLine.sources o then readAll (← IO.getStdin)
      else pure ByteArray.empty
    let r ← withFiles fun files => CommandLine.outcome files World.callLimit input.toList o
    print (CommandLine.report .command o r)

/-! ## The console -/

/-- Answers lines, and then those that are still to be read. -/
partial def converse (stream : IO.FS.Stream) (s : State Empty) (pending : List String) :
    IO UInt32 := do
  match pending with
  | [] =>
    let line ← stream.getLine
    if line.isEmpty then return 0 else converse stream s (Text.lines line)
  | line :: rest =>
    if Console.isFarewell line then return 0
    let o ← withFiles fun files => Console.converse (World.ofFiles files) World.callLimit line s
    IO.print o.output
    match o.result with
    | .ok () => converse stream o.state rest
    | .error (.fault f) =>
      IO.eprintln f.message
      return 1
    | .error (.error e) =>
      IO.eprintln e.message
      return 1

/-- The console. -/
def console : IO UInt32 := do
  IO.println Console.greeting
  converse (← IO.getStdin) (State.new.install (some "utf-8")) []

end WordMachine.Program

def main (arguments : List String) : IO UInt32 := do
  if (← IO.appPath).fileStem = some "console" then WordMachine.Program.console
  else WordMachine.Program.commandLine arguments
