import PycListing.Files.Artifact
import PycListing.Listing

/-! # Disassembling a file

From a path to the listing of the compiled file that it stands for.
-/

namespace PycListing

/-- Why a file cannot be read as a compiled file. -/
inductive FileLoadError where
  | unreadable (path : String) (error : FileError)
  | malformed (error : Container.LoadError)
  deriving DecidableEq, Repr

def FileLoadError.message : FileLoadError → String
  | .unreadable path error => "cannot read `" ++ path ++ "`: " ++ error.message
  | .malformed error => error.message

/-- Why a path cannot be disassembled. -/
inductive DisassemblyError where
  | path (error : Artifact.PathError)
  | load (error : FileLoadError)
  | listing (error : ListingError)
  deriving DecidableEq, Repr

def DisassemblyError.message : DisassemblyError → String
  | .path error => error.message
  | .load error => error.message
  | .listing error => error.message

/-- A file that was disassembled: where it was found, what it held, its root unit, and its
listing. -/
structure Disassembly where
  path : String
  compiled : CompiledModule
  root : CodeUnit
  text : String

namespace Disassembly

variable {m : Type → Type} [Monad m]

def load (files : FileSystem m) (path : String) : m (Except FileLoadError CompiledModule) := do
  match ← files.read path with
  | .error error => pure (.error (.unreadable path error))
  | .ok data =>
    match Container.load data with
    | .error error => pure (.error (.malformed error))
    | .ok compiled => pure (.ok compiled)

/-- Disassembles the compiled file that a path stands for, on some host. -/
def ofPath (files : FileSystem m) (host path : String) (options : ListingOptions) :
    m (Except DisassemblyError Disassembly) := do
  match ← Artifact.resolve files path with
  | .error error => pure (.error (.path error))
  | .ok found =>
    match ← load files found with
    | .error error => pure (.error (.load error))
    | .ok compiled =>
      match compiled.listing host options with
      | .error error => pure (.error (.listing error))
      | .ok (root, text) => pure (.ok ⟨found, compiled, root, text⟩)

end Disassembly

end PycListing
