import Understudy.Generation.Destination

/-! # Delivering documents

Documents are delivered all or none. Each is first written to a staged file beside its destination.
Then the staged files are moved into place one after the other, and a file that is in the way is set
aside until all are there. Staged files and those that are set aside keep clear of all destinations.
When a step fails, what was done before it is undone in reverse order.
Standard output gets its share last, once no step can fail any more.
-/

namespace Understudy

/-- A document in a staged file that waits to be moved to its destination. -/
structure Staged where
  destination : Path
  file : Path
  deriving DecidableEq, Repr

namespace Delivery

section

variable {m : Type → Type} [Monad m] [FileSystem m]

variable (destinations : List Path)

/-- Writes each document to a staged file. On failure, answers with the destination of the document
that could not be written, and leaves no staged file behind. -/
def stage : List (Path × String) → m (Except Path (List Staged))
  | [] => return .ok []
  | (destination, text) :: rest => do
    match ← FileSystem.createBeside destinations destination text with
    | none => return .error destination
    | some file =>
      match ← stage rest with
      | .ok staged => return .ok ({ destination, file } :: staged)
      | .error failed =>
        FileSystem.remove file
        return .error failed

def discard : List Staged → m Unit
  | [] => return ()
  | staged :: rest => do
    FileSystem.remove staged.file
    discard rest

/-- Moves a file that is in the way of a destination to a fresh name beside it. Answers with that
name, with nothing if no file is in the way, and with an error if a step failed. -/
def setAside (destination : Path) : m (Except Path (Option Path)) := do
  if ← FileSystem.isFile destination then
    match ← FileSystem.createBeside destinations destination "" with
    | none => return .error destination
    | some backup =>
      if ← FileSystem.move destination backup then return .ok (some backup)
      else
        FileSystem.remove backup
        return .error destination
  else return .ok none

/-- Undoes one move into place: brings back the file that was set aside, or leaves nothing there. -/
def undo (destination : Path) : Option Path → m Unit
  | some backup => FileSystem.restore backup destination
  | none => FileSystem.remove destination

/-- Brings back a file that was set aside for a move that failed. -/
def bringBack (destination : Path) : Option Path → m Unit
  | some backup => FileSystem.restore backup destination
  | none => return ()

def forget : Option Path → m Unit
  | some backup => FileSystem.remove backup
  | none => return ()

/-- Moves the staged files into place. On failure, answers with the destination that could not be
reached, and leaves every destination as it was. -/
def commit : List Staged → m (Except Path Unit)
  | [] => return .ok ()
  | staged :: rest => do
    match ← setAside destinations staged.destination with
    | .error failed =>
      discard (staged :: rest)
      return .error failed
    | .ok backup? =>
      if ← FileSystem.move staged.file staged.destination then
        match ← commit rest with
        | .ok () =>
          forget backup?
          return .ok ()
        | .error failed =>
          undo staged.destination backup?
          return .error failed
      else
        bringBack staged.destination backup?
        discard (staged :: rest)
        return .error staged.destination

end

/-- The documents that go to a file. -/
def toFiles (documents : List (Destination × String)) : List (Path × String) :=
  documents.filterMap fun (destination, text) => destination.path?.map fun path => (path, text)

/-- The text that goes to standard output. -/
def toStandardOutput (documents : List (Destination × String)) : String :=
  String.join
    ((documents.filter fun document => document.1 = .standardOutput).map fun document => document.2)

section

variable {m : Type → Type} [Monad m] [FileSystem m]

/-- Delivers all documents, or none and answers with the destination that could not be reached. -/
def deliver (documents : List (Destination × String)) : m (Except Path Unit) := do
  let files := toFiles documents
  let destinations := files.map Prod.fst
  match ← stage destinations files with
  | .error failed => return .error failed
  | .ok staged =>
    match ← commit destinations staged with
    | .error failed => return .error failed
    | .ok () =>
      FileSystem.print (toStandardOutput documents)
      return .ok ()

end

end Delivery

namespace Session

variable {m : Type → Type} [Monad m] [FileSystem m]

/-- Writes the documents that are asked for, all or none. -/
def write (session : Session) (paths : OutputPaths) : m (Except Failure Unit) := do
  match ← Delivery.deliver (session.documents paths) with
  | .ok () => return .ok ()
  | .error failed => return .error (.output failed)

end Session

end Understudy
