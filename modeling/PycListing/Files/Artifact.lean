import PycListing.Files.System

/-! # Compiled files of sources

The compiled file that a path stands for. A source `x.py` stands for `x.pyc` or `x.pyo` beside it,
or else for a file in the cache directory `__pycache__` beside it; every other path stands for
itself.
-/

namespace PycListing.Artifact

/-- Why a path stands for no compiled file. -/
inductive PathError where
  | noCompiledFile (source : String)
  | notFile (path : String)
  deriving DecidableEq, Repr

def PathError.message : PathError → String
  | .noCompiledFile source => "no compiled file found for source `" ++ source ++ "`"
  | .notFile path => "`" ++ path ++ "` is not a file"

/-- Whether a name in the cache directory is that of a compiled file of a source with this stem:
it starts with the stem and a dot, and has the extension of compiled files. -/
def isCacheName (stem name : String) : Bool :=
  (stem ++ ".").toList.isPrefixOf name.toList && (Path.splitName name).2 = some "pyc"

def cacheDirectory (source : String) : String :=
  Path.join ((Path.parent? source).getD "") "__pycache__"

/-- The name that comes first in the order of code points. -/
def leastName? (names : List String) : Option String :=
  (names.mergeSort fun first second => first ≤ second).head?

variable {m : Type → Type} [Monad m]

def firstFile? (files : FileSystem m) : List String → m (Option String)
  | [] => pure none
  | path :: more => do
    if ← files.isFile path then pure (some path) else firstFile? files more

/-- The compiled file of a source in its cache directory, the least by name. -/
def cached? (files : FileSystem m) (source : String) : m (Option String) := do
  match Path.stem? source with
  | none => pure none
  | some stem =>
    let directory := cacheDirectory source
    let names ← files.names directory
    let hits ← (names.filter (isCacheName stem)).filterM fun name =>
      files.isFile (Path.join directory name)
    pure ((leastName? hits).map (Path.join directory))

def ofSource (files : FileSystem m) (source : String) : m (Except PathError String) := do
  let beside ← firstFile? files [Path.withExtension source "pyc", Path.withExtension source "pyo"]
  let found ← match beside with
    | some path => pure (some path)
    | none => cached? files source
  match found with
  | some path => pure (.ok path)
  | none => pure (.error (.noCompiledFile source))

/-- The compiled file that a path stands for. -/
def resolve (files : FileSystem m) (path : String) : m (Except PathError String) := do
  if Path.extension? path = some "py" then ofSource files path
  else if ← files.isFile path then pure (.ok path)
  else pure (.error (.notFile path))

end PycListing.Artifact
