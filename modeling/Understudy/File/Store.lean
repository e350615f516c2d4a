import Understudy.File.System

/-! # File stores

A file store is a tree of directories and files, kept as the list of all places that hold something.
The root is a directory in every store. Paths are looked up from the working directory or from the
root, one part after the other, and each part but the last must lead to a directory. Names and paths
have a greatest length.
-/

namespace Understudy

/-- A place in the tree: the names on the way up to the root, its own name first. -/
abbrev Location := List String

inductive Entry where
  | directory
  | file (contents : String)
  deriving DecidableEq, Repr

structure FileStore where
  /-- What each place holds. The first entry for a place counts. -/
  entries : List (Location × Entry) := []
  workingDirectory : Location := []
  deriving DecidableEq, Repr

namespace FileStore

variable (store : FileStore)

def get? (place : Location) : Option Entry :=
  if place.isEmpty then some .directory else store.entries.lookup place

def erase (place : Location) : FileStore :=
  { store with entries := store.entries.filter fun entry => entry.1 ≠ place }

def set (place : Location) (entry : Entry) : FileStore :=
  { store with entries := (place, entry) :: (store.erase place).entries }

/-- One step of a look-up. -/
inductive Step where
  | name (name : String)
  | here
  | up
  deriving DecidableEq, Repr

namespace Step

def ofPart (part : List Char) : Step :=
  if part = [] ∨ part = ['.'] then here
  else if part = ['.', '.'] then up
  else name (String.ofList part)

/-- The steps of a path. A slash at the end is a step that stays, so what stands before it must be
a directory. -/
def ofPath (path : Path) : List Step := (path.text.toList.splitOn '/').map ofPart

end Step

/-- The greatest length of a name in bytes. -/
def maxNameLength : Nat := 255

/-- The greatest length of a path in bytes. -/
def maxPathLength : Nat := 4095

/-- Follows one step from a place. A step up leads to a directory, as every place above one is. -/
def step (place : Location) (step : Step) : Except ReadFault Location :=
  match store.get? place with
  | none => .error .missing
  | some (.file _) => .error .notDirectory
  | some .directory =>
    match step with
    | .name name =>
      if name.utf8ByteSize ≤ maxNameLength then .ok (name :: place) else .error .tooLong
    | .here => .ok place
    | .up => if store.get? place.tail = some .directory then .ok place.tail else .error .notDirectory

/-- Where a path begins. -/
def start (path : Path) : Location :=
  if path.isAbsolute then [] else store.workingDirectory

/-- The place that a path names, whether or not it holds something. The empty path names none, and
no name holds a null character. -/
def locate (path : Path) : Except ReadFault Location :=
  if path.text.isEmpty then .error .missing
  else if '\x00' ∈ path.text.toList then
    .error (.other "file name contained an unexpected NUL byte")
  else if maxPathLength < path.text.utf8ByteSize then .error .tooLong
  else (Step.ofPath path).foldlM store.step (store.start path)

/-- Whether a path names a place. -/
def leadsTo (path : Path) (place : Location) : Bool :=
  match store.locate path with
  | .ok found => found = place
  | .error _ => false

def entry? (path : Path) : Option Entry :=
  match store.locate path with
  | .ok place => store.get? place
  | .error _ => none

def isFile (path : Path) : Bool :=
  match store.entry? path with
  | some (.file _) => true
  | some .directory | none => false

def isDirectory (path : Path) : Bool :=
  match store.entry? path with
  | some .directory => true
  | some (.file _) | none => false

def read (path : Path) : Except ReadFault String := do
  match store.get? (← store.locate path) with
  | some (.file contents) => return contents
  | some .directory => throw .isDirectory
  | none => throw .missing

/-- The path of the working directory. -/
def workingPath : Path :=
  { text := "/" ++ String.intercalate "/" store.workingDirectory.reverse }

/-- A path in a directory that leads to a place which holds nothing and which none of the avoided
paths leads to. One name more is tried than there are entries and avoided paths, so they cannot take
all of them. -/
def freshPath? (avoided : List Path) (directory : Path) : Option (Path × Location) :=
  (List.range (store.entries.length + avoided.length + 1)).findSome? fun number =>
    let path := directory.join (".understudy" ++ toString number)
    match store.locate path with
    | .ok place =>
      if (store.get? place).isSome || avoided.any fun other => store.leadsTo other place then none
      else some (path, place)
    | .error _ => none

/-- Makes a file under a fresh name in the directory of a path. Its path begins at the root. -/
def createBeside? (avoided : List Path) (path : Path) (contents : String) :
    Option (Path × FileStore) :=
  (store.freshPath? avoided (path.directory.absoluteFrom store.workingPath)).map
    fun (fresh, place) => (fresh, store.set place (.file contents))

/-- The place where a file can be put under a path: its last part is a name, and it does not hold a
directory. -/
def target? (path : Path) : Option Location :=
  match (Step.ofPath path).getLast?, store.locate path with
  | some (.name _), .ok place => if store.get? place = some .directory then none else some place
  | _, _ => none

/-- Renames a file, replacing the file at the second path. -/
def move? (source target : Path) : Option FileStore :=
  match store.locate source, store.target? target with
  | .ok place, some goal =>
    match store.get? place with
    | some (.file contents) => some ((store.erase place).set goal (.file contents))
    | some .directory | none => none
  | _, _ => none

/-- Removes a file. A directory, or a place that holds nothing, is left alone. -/
def remove (path : Path) : FileStore :=
  match store.locate path with
  | .ok place =>
    match store.get? place with
    | some (.file _) => store.erase place
    | some .directory | none => store
  | .error _ => store

/-- Makes a directory and those above it that are missing. Files in the way are left alone. -/
def makeDirectories : Location → FileStore
  | [] => store
  | name :: above =>
    let made := makeDirectories above
    if (made.get? (name :: above)).isNone then made.set (name :: above) .directory else made

/-- Follows a step without regard to what the places hold. -/
def follow (place : Location) : Step → Location
  | .name name => name :: place
  | .here => place
  | .up => place.tail

/-- Makes the directories on the way of some steps from a place. Answers with the last one too. -/
def makeWay (store : FileStore) (place : Location) : List Step → FileStore × Location
  | [] => (store, place)
  | step :: steps =>
    let next := follow place step
    makeWay (store.makeDirectories next) next steps

/-- Makes a directory at a path, with all directories on its way. -/
def addDirectory (path : Path) : FileStore :=
  (store.makeWay (store.start path) (Step.ofPath path)).1

/-- Writes a file at a path, with all directories on its way. -/
def addFile (path : Path) (contents : String) : FileStore :=
  let steps := Step.ofPath path
  let (store, directory) := store.makeWay (store.start path) steps.dropLast
  store.set (steps.getLast?.elim directory (follow directory)) (.file contents)

/-- A store with nothing but the working directory and the directories above it. -/
def empty (workingDirectory : Location) : FileStore :=
  makeDirectories { workingDirectory } workingDirectory

/-- The path of a place below a directory, as the names on the way down to it. -/
def below? (directory place : Location) : Option (List String) :=
  if directory.length < place.length ∧ place.drop (place.length - directory.length) = directory then
    some (place.take (place.length - directory.length)).reverse
  else none

/-- What the working directory holds, with the names on the way down to each entry. -/
def listing : List (List String × Entry) :=
  store.entries.filterMap fun (place, entry) =>
    (below? store.workingDirectory place).map fun names => (names, entry)

end FileStore

end Understudy
