import PycListing.Command.Run

/-! # The command

The files, the clock and the streams of the machine that the command is started on.
-/

namespace PycListing.Machine

def causeOf : IO.Error → FileError
  | .noFileOrDirectory .. => .notFound
  | .inappropriateType _ 20 _ => .notDirectory
  | .inappropriateType _ 21 _ => .isDirectory
  | .alreadyExists .. => .alreadyExists
  | error => .other (toString error)

/-- Runs an operation on files, a failure of which is a result. -/
def attempt {α : Type} (operation : IO α) : IO (Except FileError α) := do
  match ← operation.toBaseIO with
  | .ok value => return .ok value
  | .error error => return .error (causeOf error)

/-- What kind of file a path leads to, if it leads anywhere. -/
def kindOf? (path : String) : IO (Option IO.FS.FileType) := do
  if path = "" then return none
  match ← attempt (do ((← IO.currentDir).join path).metadata) with
  | .ok metadata => return some metadata.type
  | .error _ => return none

def files : FileSystem IO where
  read path := attempt (do return (← IO.FS.readBinFile path).data.toList)
  isFile path := do
    match ← kindOf? path with
    | some .file => return true
    | _ => return false
  isDirectory path := do
    match ← kindOf? path with
    | some .dir => return true
    | _ => return false
  names path := do
    match ← attempt (do ((← IO.currentDir).join path).readDir) with
    | .ok entries => return entries.toList.map (·.fileName)
    | .error _ => return []
  makeDirectory path := attempt (IO.FS.createDir path)
  write path content := attempt (IO.FS.writeBinFile path content.toByteArray)

def host : Command.Host IO where
  files := files
  description := "crossdis " ++ toolVersion ++ " on x86_64-linux"
  currentDirectory := do return (← IO.currentDir).toString
  clock := IO.monoNanosNow

end PycListing.Machine

def main (line : List String) : IO UInt32 := do
  let outcome ← PycListing.Command.run PycListing.Machine.host line
  let output ← IO.getStdout
  output.putStr outcome.output
  output.flush
  (← IO.getStderr).putStr outcome.diagnostics
  return outcome.status.toUInt32
