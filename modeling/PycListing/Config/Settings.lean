import PycListing.Config.Document
import PycListing.Files.System
import PycListing.Listing

/-! # Configuration

The settings of a configuration file, the search for that file, and the listing options that they
and the command line lead to.
-/

namespace PycListing

/-- The settings of a configuration file, each of which may be absent. -/
structure Config where
  header : Option Bool := none
  order : Option TraversalOrder := none
  deriving DecidableEq, Repr

/-- Why there is no configuration. -/
inductive ConfigError where
  | unreadable (path : String) (reason : String)
  | invalid (path : String)
  deriving DecidableEq, Repr

def ConfigError.message : ConfigError → String
  | .unreadable path reason => "cannot read config `" ++ path ++ "`: " ++ reason
  | .invalid path => "invalid config `" ++ path ++ "`: expected `header` and `order` settings"

def TraversalOrder.ofName? : String → Option TraversalOrder
  | "dependency" => some .dependency
  | "discovery" => some .discovery
  | _ => none

namespace Config

/-- What has been said of the order so far. It may be given by its name, or as a table that has
the name as its single key. -/
inductive OrderEntry where
  | absent
  /-- The table was opened, and has no key yet. -/
  | opened
  /-- The table of the name was opened within the table of the order, which was not. -/
  | implied (order : TraversalOrder)
  | given (order : TraversalOrder)
  deriving DecidableEq, Repr

/-- The table that assignments go to. -/
inductive Section where
  | top
  | order
  /-- A table that has to stay empty. -/
  | closed
  deriving DecidableEq, Repr

/-- What the statements up to some line have said. -/
structure Draft where
  header : Option Bool := none
  order : OrderEntry := .absent
  current : Section := .top
  deriving DecidableEq, Repr

namespace Draft

/-- A draft in which the order is given, unless something was said of it before. -/
def give (draft : Draft) (name : String) : Option Draft :=
  match draft.order with
  | .absent => (TraversalOrder.ofName? name).map fun order => { draft with order := .given order }
  | _ => none

def add (draft : Draft) : Statement → Option Draft
  | .assign path value =>
    match draft.current, path, value with
    | .top, ["header"], .bool b =>
      if draft.header.isSome then none else some { draft with header := some b }
    | .top, ["order"], .text name => draft.give name
    | .top, ["order"], .named name => draft.give name
    | .top, ["order", name], .empty => draft.give name
    | .order, [name], .empty =>
      match draft.order with
      | .opened =>
        (TraversalOrder.ofName? name).map fun order => { draft with order := .given order }
      | _ => none
    | _, _, _ => none
  | .openTable ["order"] =>
    match draft.order with
    | .absent => some { draft with order := .opened, current := .order }
    | .implied order => some { draft with order := .given order, current := .order }
    | _ => none
  | .openTable ["order", name] => do
    let order ← TraversalOrder.ofName? name
    match draft.order with
    | .absent => some { draft with order := .implied order, current := .closed }
    | .opened => some { draft with order := .given order, current := .closed }
    | _ => none
  | .openTable _ => none

def finish (draft : Draft) : Option Config :=
  match draft.order with
  | .absent => some ⟨draft.header, none⟩
  | .opened => none
  | .implied order => some ⟨draft.header, some order⟩
  | .given order => some ⟨draft.header, some order⟩

end Draft

def ofText? (text : String) : Option Config := do
  let statements ← statements? text
  let draft ← statements.foldlM Draft.add {}
  draft.finish

/-- The listing options, in which what the command line says has precedence. -/
def resolve (config : Config) (header : Option Bool) (order : Option TraversalOrder) :
    ListingOptions where
  header := (header <|> config.header).getD true
  order := (order <|> config.order).getD .dependency

def fileName : String :=
  ".crossdis.toml"

variable {m : Type → Type} [Monad m]

def read (files : FileSystem m) (path : String) : m (Except ConfigError Config) := do
  match ← files.read path with
  | .error error => pure (.error (.unreadable path error.message))
  | .ok bytes =>
    match Text.ofUtf8? bytes with
    | none => pure (.error (.unreadable path "stream did not contain valid UTF-8"))
    | some text =>
      match ofText? text with
      | none => pure (.error (.invalid path))
      | some config => pure (.ok config)

/-- Reads the configuration file of the first of some directories that has one. -/
def search (files : FileSystem m) : List String → m (Except ConfigError Config)
  | [] => pure (.ok {})
  | directory :: above => do
    let path := Path.join directory fileName
    if ← files.isFile path then read files path else search files above

/-- The configuration: that of an explicit file, or else that of the nearest file in a directory
or above it, or else the empty one. -/
def load (files : FileSystem m) (explicit : Option String) (start : String) :
    m (Except ConfigError Config) :=
  match explicit with
  | some path => read files path
  | none => search files (Path.ancestors start)

end Config

end PycListing
