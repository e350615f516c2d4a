import Understudy.File.Path

/-! # File systems

What the program asks of the place where its files are. Steps that put files in place may fail and
say so. Steps that undo them do what they can: nothing more could be done about their failure.
-/

namespace Understudy

/-- Why a file cannot be read. -/
inductive ReadFault where
  | missing
  | isDirectory
  /-- A part of the path before the last is no directory. -/
  | notDirectory
  /-- The path, or a name in it, is longer than the file system allows. -/
  | tooLong
  | other (message : String)
  deriving DecidableEq, Repr

namespace ReadFault

def message : ReadFault → String
  | missing => "No such file or directory (os error 2)"
  | isDirectory => "Is a directory (os error 21)"
  | notDirectory => "Not a directory (os error 20)"
  | tooLong => "File name too long (os error 36)"
  | other message => message

end ReadFault

class FileSystem (m : Type → Type) where
  isFile : Path → m Bool
  isDirectory : Path → m Bool
  read : Path → m (Except ReadFault String)
  /-- Makes a file under a fresh name in the directory of a path. It is not at any of the paths that
  are to be avoided. Answers with its path, or with nothing if it could not be made. -/
  createBeside : (avoided : List Path) → Path → String → m (Option Path)
  /-- Renames a file, replacing a file that has the second path. Answers whether it succeeded. -/
  move : Path → Path → m Bool
  /-- Renames a file back to the path that it was moved from. -/
  restore : Path → Path → m Unit
  remove : Path → m Unit
  /-- Writes to standard output. -/
  print : String → m Unit

end Understudy
