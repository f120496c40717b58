import PycListing.Files.Path

/-! # File systems

The operations on files that the program needs, and their errors. They run in any monad, so that
the same program works on the files of a machine and on a tree of files that is a value.
-/

namespace PycListing

/-- Why an operation on a file fails. -/
inductive FileError where
  | notFound
  | notDirectory
  | isDirectory
  | alreadyExists
  | nameTooLong
  | nullCharacter
  /-- Any other reason, in the system's words. -/
  | other (text : String)
  deriving DecidableEq, Repr

def FileError.message : FileError → String
  | .notFound => "No such file or directory (os error 2)"
  | .notDirectory => "Not a directory (os error 20)"
  | .isDirectory => "Is a directory (os error 21)"
  | .alreadyExists => "File exists (os error 17)"
  | .nameTooLong => "File name too long (os error 36)"
  | .nullCharacter => "file name contained an unexpected NUL byte"
  | .other text => text

/-- The operations on the files that paths lead to. -/
structure FileSystem (m : Type → Type) where
  read : String → m (Except FileError (List UInt8))
  /-- Whether a path leads to a file that is no directory. -/
  isFile : String → m Bool
  isDirectory : String → m Bool
  /-- The names in a directory, in any order; none if there is no such directory. -/
  names : String → m (List String)
  /-- Makes a directory where nothing is. -/
  makeDirectory : String → m (Except FileError Unit)
  /-- Replaces the content of a file, which is made if need be. -/
  write : String → List UInt8 → m (Except FileError Unit)

namespace FileSystem

variable {m : Type → Type} [Monad m]

def ensureDirectory (files : FileSystem m) (path : String) : m (Except FileError Unit) := do
  match ← files.makeDirectory path with
  | .ok () => pure (.ok ())
  | .error error =>
    if ← files.isDirectory path then pure (.ok ()) else pure (.error error)

/-- Makes the first of some directories, nearest first, those above it before it where they are
missing. The empty path names the directory that is there already. -/
def makeUpwards (files : FileSystem m) : List String → m (Except FileError Unit)
  | [] => pure (.error (.other "failed to create whole tree"))
  | path :: above => do
    if path = "" then pure (.ok ())
    else
      match ← files.ensureDirectory path with
      | .error .notFound =>
        match ← files.makeUpwards above with
        | .ok () => files.ensureDirectory path
        | .error error => pure (.error error)
      | result => pure result

/-- Makes a directory and every missing one above it. -/
def makeDirectories (files : FileSystem m) (path : String) : m (Except FileError Unit) :=
  files.makeUpwards (Path.ancestors path)

/-- Writes a text to a file, in directories that are made if need be. -/
def writeText (files : FileSystem m) (path text : String) : m (Except FileError Unit) := do
  let made ← match Path.parent? path with
    | none => pure (.ok ())
    | some parent => files.makeDirectories parent
  match made with
  | .error error => pure (.error error)
  | .ok () => files.write path text.toUTF8.data.toList

end FileSystem

end PycListing
