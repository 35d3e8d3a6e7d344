import WordMachine.Text.DecimalDigit
import WordMachine.Text.Quoted

/-!
# Arguments of the command line

An argument list names source files and sets switches. `Argument.classify` decides what each
argument is, before any is acted upon; `Options.parse` then goes through the list.

* A long switch may be cut short as long as only one fits, and takes its value behind `=` or from
  the next argument. A short switch takes its value glued on, behind `=`, or from the next argument;
  short switches without a value may be glued together.
* Only the first run of plain arguments names files. A plain argument behind a later switch is not
  recognized.
* Behind `--` all arguments are plain. As the value of a switch `--` is dropped, so that the switch is
  given but has no value.
-/

namespace WordMachine

/-- The switches. -/
inductive Switch where
  | help
  | eval
  | encoding
  | verbose
deriving DecidableEq, Repr

namespace Switch

/-- All switches, in the order that messages list them. -/
def all : List Switch :=
  [help, eval, encoding, verbose]

/-- The long name. -/
def long : Switch → String
  | help => "--help"
  | eval => "--eval"
  | encoding => "--encoding"
  | verbose => "--verbose"

/-- The letter of the short name. -/
def letter? : Switch → Option Char
  | help => some 'h'
  | eval => some 'e'
  | encoding => none
  | verbose => some 'v'

/-- Whether the switch takes a value. -/
def takesValue : Switch → Bool
  | help => false
  | eval => true
  | encoding => true
  | verbose => false

/-- The switch with a given letter. -/
def ofLetter? (c : Char) : Option Switch :=
  all.find? fun s => s.letter? = some c

/-- All names of the switch. -/
def label (s : Switch) : String :=
  match s.letter? with
  | some c => String.ofList ['-', c] ++ "/" ++ s.long
  | none => s.long

/-- The switch that a name stands for exactly, and whether the name is the short one. -/
def named? (name : List Char) : Option (Switch × Bool) :=
  match name with
  | ['-', c] => (ofLetter? c).map (·, true)
  | _ => (all.find? fun s => s.long.toList = name).map (·, false)

/-- The switches whose long name starts like `start`. -/
def startingWith (start : List Char) : List Switch :=
  all.filter fun s => start.isPrefixOf s.long.toList

end Switch

/-- What is wrong with an argument list. -/
inductive UsageError where
  | ambiguous (argument : String) (choices : List Switch)
  | missingValue (s : Switch)
  | unusedValue (s : Switch) (value : String)
  | unrecognized (arguments : List String)
deriving DecidableEq, Repr

/-- The text of a usage error. -/
def UsageError.message : UsageError → String
  | ambiguous argument choices =>
    "ambiguous option: " ++ argument ++ " could match " ++
      String.intercalate ", " (choices.map Switch.long)
  | missingValue s => "argument " ++ s.label ++ ": expected one argument"
  | unusedValue s value =>
    "argument " ++ s.label ++ ": ignored explicit argument " ++ Text.quoted value
  | unrecognized arguments => "unrecognized arguments: " ++ String.intercalate " " arguments

/-! ## Single arguments -/

/-- What an argument is. -/
inductive Argument where
  | plain (text : String)
  | separator
  /-- A switch, by its short or its long name, and the value attached to it. -/
  | switch (s : Switch) (short : Bool) (value : Option String)
  | unknown (text : String)
deriving DecidableEq, Repr

namespace Argument

/-- The argument behind which all others are plain. -/
def separatorText : String := "--"

/-- Cuts a text at its first `=`. -/
def cutEquals : List Char → List Char × Option (List Char)
  | [] => ([], none)
  | c :: cs =>
    if c = '=' then ([], some cs) else (c :: (cutEquals cs).1, (cutEquals cs).2)

/-- Whether a text is a minus sign and a decimal number, maybe with a line feed behind it. -/
def isNegativeNumber (cs : List Char) : Bool :=
  match cs with
  | '-' :: body =>
    let body := if body.getLast? = some '\n' then body.dropLast else body
    let whole := body.takeWhile Text.isDecimalDigit
    match body.dropWhile Text.isDecimalDigit with
    | [] => !whole.isEmpty
    | '.' :: fraction => !fraction.isEmpty && fraction.all Text.isDecimalDigit
    | _ => false
  | _ => false

/-- What an argument is that starts with a minus sign and that no switch accounts for. -/
def leftover (text : String) : Argument :=
  let cs := text.toList
  if isNegativeNumber cs || cs.contains ' ' then plain text else unknown text

/-- What an argument is whose name is no switch exactly. -/
def abbreviated (text : String) : Except UsageError Argument :=
  let (name, value) := cutEquals text.toList
  match text.toList with
  | '-' :: '-' :: _ =>
    match Switch.startingWith name with
    | [] => .ok (leftover text)
    | [s] => .ok (switch s false (value.map String.ofList))
    | choices => .error (.ambiguous text choices)
  | '-' :: c :: rest =>
    match Switch.ofLetter? c with
    | some s => .ok (switch s true (some (String.ofList rest)))
    | none => .ok (leftover text)
  | _ => .ok (plain text)

/-- What an argument before `--` is. -/
def classify (text : String) : Except UsageError Argument :=
  let cs := text.toList
  if cs.head? ≠ some '-' ∨ cs = ['-'] then .ok (plain text)
  else
    match Switch.named? cs with
    | some (s, short) => .ok (switch s short none)
    | none =>
      match cutEquals cs with
      | (name, some value) =>
        match Switch.named? name with
        | some (s, short) => .ok (switch s short (some (String.ofList value)))
        | none => abbreviated text
      | (_, none) => abbreviated text

/-- What each argument is. -/
def classifyAll : List String → Except UsageError (List Argument)
  | [] => .ok []
  | text :: rest =>
    if text = separatorText then .ok (separator :: rest.map plain)
    else do
      let a ← classify text
      let as ← classifyAll rest
      return a :: as

/-! ## Glued switches -/

/-- What the last of some glued switches does about its value. -/
inductive Operand where
  /-- It takes none. -/
  | none
  /-- It takes the next argument. -/
  | wanted (s : Switch)
  | given (s : Switch) (text : String)
deriving DecidableEq, Repr

/-- Switches without a value, and then at most one with a value. -/
structure Group where
  flags : List Switch
  operand : Operand
deriving DecidableEq, Repr

/-- A switch and the letters glued to it. -/
def glued (s : Switch) : List Char → Except UsageError Group
  | [] => .ok (if s.takesValue then ⟨[], .wanted s⟩ else ⟨[s], .none⟩)
  | c :: cs =>
    if s.takesValue then .ok ⟨[], .given s (String.ofList (c :: cs))⟩
    else
      match Switch.ofLetter? c with
      | none => .error (.unusedValue s (String.ofList (c :: cs)))
      | some next => (glued next cs).map fun g => { g with flags := s :: g.flags }

/-- A switch and what is attached to it. -/
def group (s : Switch) (short : Bool) : Option String → Except UsageError Group
  | none => glued s []
  | some value =>
    if s.takesValue then .ok ⟨[], .given s value⟩
    else if short && value != "" then glued s value.toList
    else .error (.unusedValue s value)

end Argument

/-! ## The whole list -/

/-- What the command line asks for. -/
structure Options where
  files : List String := []
  /-- The text to run, if the switch for it is given. It may be given without a text. -/
  text : Option (Option String) := none
  /-- The name of the encoding, unless it is given without one. -/
  encoding : Option String := some "utf-8"
  verbose : Bool := false
deriving DecidableEq, Repr

/-- Why an argument list asks for no run. -/
inductive Stop where
  | help
  | usage (e : UsageError)
deriving DecidableEq, Repr

namespace Options

/-- Sets a switch without a value. -/
def flag (o : Options) : Switch → Except Stop Options
  | .help => .error .help
  | .verbose => .ok { o with verbose := true }
  | _ => .ok o

/-- What is left of the value of a switch: all of it, but the separator is dropped. -/
def kept? (value : String) : Option String :=
  if value = Argument.separatorText then none else some value

/-- Sets a switch with a value. -/
def value (o : Options) (s : Switch) (text : String) : Options :=
  match s with
  | .eval => { o with text := some (kept? text) }
  | .encoding => { o with encoding := kept? text }
  | _ => o

/-- How far the first run of plain arguments has come. -/
inductive FileRun where
  | ahead
  | within
  | passed
deriving DecidableEq, Repr

/-- The options so far, and the arguments that were not recognized. -/
structure Progress where
  options : Options := {}
  run : FileRun := .ahead
  extras : List String := []
deriving DecidableEq, Repr

namespace Progress

/-- A plain argument is a file of the first run, or not recognized. -/
def plain (p : Progress) (text : String) : Progress :=
  match p.run with
  | .passed => { p with extras := p.extras ++ [text] }
  | _ => { p with options := { p.options with files := p.options.files ++ [text] }, run := .within }

/-- The separator belongs to the first run, or is not recognized. -/
def separator (p : Progress) : Progress :=
  match p.run with
  | .passed => { p with extras := p.extras ++ [Argument.separatorText] }
  | _ => { p with run := .within }

/-- A switch ends a run that has begun. -/
def endRun (p : Progress) : Progress :=
  match p.run with
  | .within => { p with run := .passed }
  | _ => p

/-- Sets switches without a value, in order. -/
def flags (p : Progress) (ss : List Switch) : Except Stop Progress := do
  let options ← ss.foldlM flag p.options
  return { p with options }

/-- Goes through arguments. -/
def consume (p : Progress) : List Argument → Except Stop Progress
  | [] => .ok p
  | .plain text :: rest => (p.plain text).consume rest
  | .separator :: rest => p.separator.consume rest
  | .unknown text :: rest =>
    let p := p.endRun
    { p with extras := p.extras ++ [text] }.consume rest
  | .switch s short attached :: rest =>
    match Argument.group s short attached with
    | .error e => .error (.usage e)
    | .ok g =>
      match g.operand, rest with
      | .none, rest => do
        let p ← p.endRun.flags g.flags
        p.consume rest
      | .given s text, rest => do
        let p ← p.endRun.flags g.flags
        { p with options := p.options.value s text }.consume rest
      | .wanted s, .plain text :: rest => do
        let p ← p.endRun.flags g.flags
        { p with options := p.options.value s text }.consume rest
      | .wanted s, _ => .error (.usage (.missingValue s))

end Progress

/-- The options of an argument list. -/
def parse (arguments : List String) : Except Stop Options :=
  match Argument.classifyAll arguments with
  | .error e => .error (.usage e)
  | .ok as =>
    match ({} : Progress).consume as with
    | .error stop => .error stop
    | .ok p =>
      if p.extras.isEmpty then .ok p.options else .error (.usage (.unrecognized p.extras))

end Options

end WordMachine
