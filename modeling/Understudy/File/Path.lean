/-! # Paths

A path is kept as it was written. Its parts are the names between slashes; empty parts and single
dots say nothing and are passed over, and two dots stand for the parent directory.
-/

namespace Understudy

structure Path where
  text : String
  deriving DecidableEq, Repr

namespace Path

/-- The names between slashes, without empty ones and single dots. -/
def splitParts : List Char → List (List Char)
  | text => (text.splitOn '/').filter fun part => part ≠ [] ∧ part ≠ ['.']

/-- A file name divided at its last dot. A name without a dot, or with one only at its start, is
all stem. -/
def divideExtension (name : List Char) : List Char × Option (List Char) :=
  let extension := (name.reverse.takeWhile (· ≠ '.')).reverse
  let stem := name.take (name.length - extension.length - 1)
  if stem.isEmpty then (name, none) else (stem, some extension)

/-- The text without what says nothing at its end: slashes, and single dots after a slash. The text
is given in reverse. -/
def dropEmptyEnd : List Char → List Char
  | '/' :: rest => dropEmptyEnd rest
  | '.' :: '/' :: rest => dropEmptyEnd rest
  | rest => rest

variable (path : Path)

def parts : List (List Char) := splitParts path.text.toList

/-- The text up to and with its last part. -/
def body : List Char := (dropEmptyEnd path.text.toList.reverse).reverse

def isAbsolute : Bool := path.text.toList.head? = some '/'

/-- The last part, unless it stands for a parent directory. -/
def fileName? : Option (List Char) :=
  path.parts.getLast?.filter fun name => name ≠ ['.', '.']

/-- The file name, or nothing at all for a path without one. -/
def fileName : String := String.ofList (path.fileName?.getD [])

def stem : String := String.ofList ((path.fileName?.map fun name => (divideExtension name).1).getD [])

def extension? : Option String :=
  (path.fileName?.bind fun name => (divideExtension name).2).map String.ofList

/-- The path shortened by the length of its extension. One that ends with its file name keeps the
dot. -/
def dropExtension : Path :=
  match path.extension? with
  | none => path
  | some extension =>
    { text := String.ofList (path.text.toList.take (path.text.length - extension.length)) }

/-- The path with its extension replaced, or one added. What has no file name stays as it is: a path
that stands for a directory, and what is left of `..x` without its extension. -/
def withExtension (extension : String) : Path :=
  let bare := path.dropExtension
  match bare.fileName? with
  | none => bare
  | some name =>
    let before := bare.body.take (bare.body.length - name.length)
    { text := String.ofList (before ++ (divideExtension name).1) ++ "." ++ extension }

/-- A name in the directory of this path. -/
def join (name : String) : Path :=
  if path.text.isEmpty || path.text.toList.getLast? = some '/' then { text := path.text ++ name }
  else { text := path.text ++ "/" ++ name }

/-- The path with more text at its end. -/
def append (text : String) : Path := { text := path.text ++ text }

/-- The directory that holds what the path names: the text before the last part, or the working
directory when nothing stands there. -/
def directory : Path :=
  match path.parts.getLast? with
  | none => { text := "." }
  | some last =>
    let before := path.body.take (path.body.length - last.length)
    let text := String.ofList (dropEmptyEnd before.reverse).reverse
    if !text.isEmpty then { text } else if path.isAbsolute then { text := "/" } else { text := "." }

/-- The path as it is seen from the root, when `base` is the working directory. -/
def absoluteFrom (base : Path) : Path := if path.isAbsolute then path else base.join path.text

end Path

end Understudy
