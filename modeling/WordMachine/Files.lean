/-!
# Files

What the program knows of a file system: opening a path gives the octets of a file or the reason why
it cannot be opened. `FileTree` is a file system of its own, a working directory with directories and
files below it. `FileTree.store` puts a file into it, and `FileTree.toFiles` resolves paths in it.
-/

namespace WordMachine

/-- Why a file cannot be opened. -/
inductive OpenError where
  | notFound
  | denied
  | notADirectory
  | isADirectory
  | nameTooLong
  /-- Any other reason, by its code and its wording. -/
  | other (code : Nat) (text : String)
deriving DecidableEq, Repr

namespace OpenError

/-- The number that the system gives to a reason. -/
def code : OpenError → Nat
  | notFound => 2
  | denied => 13
  | notADirectory => 20
  | isADirectory => 21
  | nameTooLong => 36
  | other code _ => code

/-- The wording of a reason. -/
def text : OpenError → String
  | notFound => "No such file or directory"
  | denied => "Permission denied"
  | notADirectory => "Not a directory"
  | isADirectory => "Is a directory"
  | nameTooLong => "File name too long"
  | other _ text => text

end OpenError

/-- A file system: what opening each path gives. -/
abbrev Files := String → Except OpenError (List UInt8)

/-- A working directory by the files and the directories below it, each under the names that lead to
it. -/
structure FileTree where
  files : List (List String × List UInt8) := []
  directories : List (List String) := []

namespace FileTree

/-- The longest path that can be opened, in octets. -/
def pathLimit : Nat := 4095

/-- The longest name of a directory entry, in octets. -/
def nameLimit : Nat := 255

/-- The parts of a path between slashes. -/
def splitSlash : List Char → List (List Char)
  | [] => [[]]
  | c :: cs =>
    if c = '/' then [] :: splitSlash cs
    else match splitSlash cs with
      | [] => [[c]]
      | p :: ps => (c :: p) :: ps

/-- The parts of a path between slashes, as names. -/
def components (path : String) : List String :=
  (splitSlash path.toList).map String.ofList

/-! ## Storing -/

/-- Where one part of a path leads from a directory, whether it exists or not. -/
def enter (names : List String) (part : String) : List String :=
  if part = "" ∨ part = "." then names
  else if part = ".." then names.dropLast
  else names ++ [part]

/-- The directories on the way from a directory along the parts of a path, the last one first. -/
def way (names : List String) (parts : List String) : List (List String) :=
  parts.foldl (fun visited part => enter (visited.headD []) part :: visited) [names]

/-- Stores a file under a path. All directories on the way are there afterwards, also one that the
path leaves again. -/
def store (t : FileTree) (path : String) (octets : List UInt8) : FileTree :=
  let parts := components path
  let visited := way [] parts.dropLast
  { files := (visited.headD [] ++ [parts.getLastD ""], octets) :: t.files
    directories := visited ++ t.directories }

/-! ## Opening -/

/-- Where a path leads. -/
inductive Place where
  /-- A place below the working directory, by the names that lead to it. -/
  | inside (names : List String)
  /-- A directory outside of the working directory; nothing is found there. -/
  | outside
deriving DecidableEq, Repr

/-- The file at a place. -/
def fileAt? (t : FileTree) : Place → Option (List UInt8)
  | .inside names => t.files.lookup names
  | .outside => none

/-- Whether a place is a directory. -/
def isDirectory (t : FileTree) : Place → Bool
  | .inside [] => true
  | .inside names => t.directories.contains names
  | .outside => true

/-- Follows one part of a path. An empty part and a point stay where they are. -/
def follow (t : FileTree) (place : Place) (part : String) : Except OpenError Place :=
  if !t.isDirectory place then .error .notADirectory
  else if part = "" ∨ part = "." then .ok place
  else if part = ".." then
    match place with
    | .inside [] => .ok .outside
    | .inside names => .ok (.inside names.dropLast)
    | .outside => .ok .outside
  else if nameLimit < part.utf8ByteSize then .error .nameTooLong
  else
    match place with
    | .outside => .error .notFound
    | .inside names =>
      let next := Place.inside (names ++ [part])
      if (t.fileAt? next).isSome || t.isDirectory next then .ok next else .error .notFound

/-- Where a path starts: outside if it starts with a slash. -/
def origin (path : String) : Place :=
  if path.toList.head? = some '/' then .outside else .inside []

/-- The octets of the file that a path leads to. -/
def toFiles (t : FileTree) : Files := fun path =>
  if path = "" then .error .notFound
  else if pathLimit < path.utf8ByteSize then .error .nameTooLong
  else
    match (components path).foldlM t.follow (origin path) with
    | .error e => .error e
    | .ok place =>
      match t.fileAt? place with
      | some octets => .ok octets
      | none => .error .isADirectory

end FileTree

end WordMachine
