import PycListing.Command.Arguments
import PycListing.Files.Disassembly
import PycListing.Files.Tree

/-! # Running the command

The command reads the configuration, disassembles the file, and only then writes: the listing to
standard output or to a file. It does so through the operations of a host, so that it runs on a
machine as well as on a tree of files.
-/

namespace PycListing.Command

/-- The machine that a command runs on. -/
structure Host (m : Type → Type) where
  files : FileSystem m
  /-- How listings describe the machine. -/
  description : String
  /-- The path of the directory that the command was started in. -/
  currentDirectory : m String
  /-- The time in nanoseconds since some fixed moment. -/
  clock : m Nat

/-- What a command leaves: its exit status, and what it wrote to either stream. -/
structure Outcome where
  status : Nat
  output : String
  diagnostics : String
  deriving DecidableEq, Repr

def helpText : String :=
  CompiledModule.terminated
    ["Usage: crossdis [OPTIONS] <PATH>",
     "",
     "Options:",
     "  --no-header           leave out the lines on tool, version and host",
     "  --order <ORDER>       dependency or discovery",
     "  -o, --output <FILE>   where the listing is written",
     "  --config <FILE>       the configuration file",
     "  -v, --verbose",
     "  -q, --quiet",
     "  --color <MODE>        auto, always or never",
     "  --time                show how long the run took",
     "  -h, --help",
     "  -V, --version"]

/-- The outcome of a command line that leads to no disassembly. -/
def Refusal.outcome : Refusal → Outcome
  | .help => ⟨0, helpText, ""⟩
  | .version => ⟨0, "crossdis " ++ toolVersion ++ "\n", ""⟩
  | .usage => ⟨2, "", "error: invalid arguments\n"⟩

/-- The mark that error lines start with. -/
def errorMark (colored : Bool) : String :=
  if colored then "\x1b[1;31merror:\x1b[0m" else "error:"

inductive Failure where
  | config (error : ConfigError)
  | disassembly (path : String) (error : DisassemblyError)
  | output (path : String) (error : FileError)
  deriving DecidableEq, Repr

/-- The failure and its causes, outermost first. A reason that the system gave is a cause of its
own, although the message before it names it too. -/
def Failure.causes : Failure → List String
  | .config error =>
    match error with
    | .unreadable _ reason => [error.message, reason]
    | .invalid _ => [error.message]
  | .disassembly path error =>
    let context := "désassemblage de `" ++ path ++ "`"
    match error with
    | .load (.unreadable _ reason) => [context, error.message, reason.message]
    | _ => [context, error.message]
  | .output path error => ["écriture de `" ++ path ++ "`", error.message]

def Failure.message (failure : Failure) : String :=
  ": ".intercalate failure.causes

def Failure.outcome (failure : Failure) (colored : Bool) : Outcome :=
  ⟨1, "", errorMark colored ++ " " ++ failure.message ++ "\n"⟩

variable {m : Type → Type} [Monad m]

/-- The listing that a request asks for. -/
def listing (host : Host m) (request : Request) : m (Except Failure String) := do
  match ← Config.load host.files request.config (← host.currentDirectory) with
  | .error error => pure (.error (.config error))
  | .ok config =>
    let options := config.resolve (if request.noHeader then some false else none) request.order
    match ← Disassembly.ofPath host.files host.description request.path options with
    | .error error => pure (.error (.disassembly request.path error))
    | .ok disassembly => pure (.ok disassembly.text)

/-- Writes a listing where a request wants it. A file gets the text that the bytes of the listing
make up. -/
def deliver (host : Host m) (request : Request) (text : String) : m (Except Failure Outcome) := do
  match request.output with
  | none => pure (.ok ⟨0, text, ""⟩)
  | some path =>
    match ← host.files.writeText path (Text.ofUtf8Lossy (Text.utf8Bytes text)) with
    | .error error => pure (.error (.output path error))
    | .ok () => pure (.ok ⟨0, "", "📝 Disasm → " ++ path ++ "\n"⟩)

def timeLine (nanoseconds : Nat) : String :=
  "⏱️  " ++ Time.durationText (nanoseconds / 1000000000) (nanoseconds % 1000000000) ++ "\n"

def perform (host : Host m) (request : Request) : m Outcome := do
  let started ← host.clock
  let colored := request.color.isColored
  match ← listing host request with
  | .error failure => pure (failure.outcome colored)
  | .ok text =>
    match ← deliver host request text with
    | .error failure => pure (failure.outcome colored)
    | .ok outcome =>
      if request.time then do
        let elapsed := (← host.clock) - started
        pure { outcome with diagnostics := outcome.diagnostics ++ timeLine elapsed }
      else pure outcome

def run (host : Host m) (line : List String) : m Outcome :=
  match parse line with
  | .error refusal => pure refusal.outcome
  | .ok request => perform host request

/-- A host whose files are a tree that is kept as state, and whose clock stands still. -/
def treeHost (description : String) : Host (StateM FileTree) where
  files := FileTree.system
  description := description
  currentDirectory := fun tree => ("/" ++ Path.ofSegments tree.current, tree)
  clock := pure 0

end PycListing.Command
