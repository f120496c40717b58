import PycListing.Files.System

/-! # Trees of files

A file system as a value: a tree of directories and files, and the directory from which relative
paths start. A path is followed segment by segment; every segment but the last must lead to a
directory, and `..` leads back to the directory above.
-/

namespace PycListing

inductive FileNode where
  | file (content : List UInt8)
  | directory (entries : List (String × FileNode))

/-- A tree of files and the directory in it from which relative paths start. Places in the tree
are lists of names, outermost first. -/
structure FileTree where
  root : FileNode
  current : List String

namespace FileNode

/-- The entry of a directory that bears a name. -/
def entry? : FileNode → String → Option FileNode
  | .file _, _ => none
  | .directory entries, name => entries.lookup name

def at? : FileNode → List String → Option FileNode
  | node, [] => some node
  | node, name :: place => (node.entry? name).bind fun inner => inner.at? place

/-- Replaces the entry that bears a name, or adds one. -/
def putEntry (name : String) (node : FileNode) : List (String × FileNode) →
    List (String × FileNode)
  | [] => [(name, node)]
  | (other, old) :: rest =>
    if other = name then (name, node) :: rest else (other, old) :: putEntry name node rest

/-- Puts a node at a place. Directories on the way that are missing are made. -/
def put (new : FileNode) : List String → FileNode → FileNode
  | [], _ => new
  | name :: place, .directory entries =>
    let inner := (entries.lookup name).getD (.directory [])
    .directory (putEntry name (put new place inner) entries)
  | name :: place, .file _ => .directory [(name, put new place (.directory []))]

def isFile : FileNode → Bool
  | .file _ => true
  | .directory _ => false

def isDirectory : FileNode → Bool
  | .file _ => false
  | .directory _ => true

end FileNode

namespace FileTree

/-- The longest name that a file may have, in bytes. -/
def nameLimit : Nat :=
  255

/-- The bytes from which on a path is too long. -/
def pathLimit : Nat :=
  4096

def at? (tree : FileTree) (place : List String) : Option FileNode :=
  tree.root.at? place

/-- The place one segment on from a place. -/
def step (tree : FileTree) (place : List String) (segment : String) :
    Except FileError (List String) :=
  match tree.at? place with
  | none => .error .notFound
  | some (.file _) => .error .notDirectory
  | some (.directory entries) =>
    if Path.isIdle segment then .ok place
    else if segment = ".." then .ok place.dropLast
    else if nameLimit < segment.utf8ByteSize then .error .nameTooLong
    else if (entries.lookup segment).isSome then .ok (place ++ [segment])
    else .error .notFound

/-- The place where a path starts. -/
def start (tree : FileTree) (path : String) : List String :=
  if Path.isAbsolute path then [] else tree.current

/-- Refuses the paths that no system follows: the empty one, those with a null character, and those
that are too long. -/
def checkPath (path : String) : Except FileError Unit :=
  if path.toList.contains '\x00' then .error .nullCharacter
  else if path = "" then .error .notFound
  else if pathLimit ≤ path.utf8ByteSize then .error .nameTooLong
  else .ok ()

/-- The place that a path leads to. -/
def follow (tree : FileTree) (path : String) : Except FileError (List String) := do
  checkPath path
  (Path.segments path).foldlM tree.step (tree.start path)

def find (tree : FileTree) (path : String) : Except FileError FileNode := do
  let place ← tree.follow path
  match tree.at? place with
  | some node => .ok node
  | none => .error .notFound

def read (tree : FileTree) (path : String) : Except FileError (List UInt8) := do
  match ← tree.find path with
  | .file content => .ok content
  | .directory _ => .error .isDirectory

/-- Whether a path leads to a file that is no directory. -/
def isFile (tree : FileTree) (path : String) : Bool :=
  match tree.find path with
  | .ok node => node.isFile
  | .error _ => false

def isDirectory (tree : FileTree) (path : String) : Bool :=
  match tree.find path with
  | .ok node => node.isDirectory
  | .error _ => false

/-- The names in the directory that a path leads to. -/
def names (tree : FileTree) (path : String) : List String :=
  match tree.find path with
  | .ok (.directory entries) => entries.map Prod.fst
  | _ => []

/-- The place of the directory that the last name of a path stands in, and that name. -/
def holder (tree : FileTree) (path : String) : Except FileError (List String × String) := do
  checkPath path
  match (Path.segments path).reverse.dropWhile (· = "") with
  | [] => .error .alreadyExists
  | name :: before =>
    let place ← before.reverse.foldlM tree.step (tree.start path)
    -- The empty segment demands that the place be a directory.
    let place ← tree.step place ""
    .ok (place, name)

/-- The place of the directory that a new entry belongs to, and the entry's name. A path whose
last segment is no name leads to an entry that exists already. -/
def entryPlace (tree : FileTree) (path : String) : Except FileError (List String × String) := do
  let (place, name) ← tree.holder path
  if Path.isIdle name || name = ".." then .error .alreadyExists
  else if nameLimit < name.utf8ByteSize then .error .nameTooLong
  else .ok (place, name)

/-- The tree with a node put at a place. -/
def put (tree : FileTree) (place : List String) (node : FileNode) : FileTree :=
  { tree with root := FileNode.put node place tree.root }

/-- Makes a directory where nothing is. -/
def makeDirectory (tree : FileTree) (path : String) : Except FileError FileTree := do
  let (place, name) ← tree.entryPlace path
  match tree.at? (place ++ [name]) with
  | some _ => .error .alreadyExists
  | none => .ok (tree.put (place ++ [name]) (.directory []))

/-- Replaces the content of a file, which is made if need be. A path that ends in a slash, or in
no name, asks for a directory. -/
def write (tree : FileTree) (path : String) (content : List UInt8) :
    Except FileError FileTree := do
  match tree.find path with
  | .ok (.directory _) => .error .isDirectory
  | .ok (.file _) => do
    let place ← tree.follow path
    .ok (tree.put place (.file content))
  | .error error =>
    if path.toList.getLast? = some '/' then do
      let _ ← tree.holder path
      .error .isDirectory
    else if error = .notFound then do
      let (place, name) ← tree.entryPlace path
      .ok (tree.put (place ++ [name]) (.file content))
    else .error error

/-- Runs a change of the tree, which a failed one leaves as it was. -/
def changing (change : FileTree → Except FileError FileTree) :
    StateM FileTree (Except FileError Unit) :=
  fun tree =>
    match change tree with
    | .ok after => (.ok (), after)
    | .error error => (.error error, tree)

/-- The file system of a tree that is kept as state. -/
def system : FileSystem (StateM FileTree) where
  read path := fun tree => (tree.read path, tree)
  isFile path := fun tree => (tree.isFile path, tree)
  isDirectory path := fun tree => (tree.isDirectory path, tree)
  names path := fun tree => (tree.names path, tree)
  makeDirectory path := changing (·.makeDirectory path)
  write path content := changing (·.write path content)

end FileTree

end PycListing
