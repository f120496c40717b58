/-! # Paths

A path is a text of segments between slashes. Its last name is that of the file it leads to: empty
segments and `.` after it are ignored, and a path that ends in `..` has none.
-/

namespace PycListing.Path

/-- The segments of a path, empty ones included. -/
def segments (path : String) : List String :=
  (path.toList.splitOn '/').map String.ofList

def ofSegments (names : List String) : String :=
  "/".intercalate names

/-- Whether a path starts at the root of the file system. -/
def isAbsolute (path : String) : Bool :=
  path.toList.head? = some '/'

/-- Whether a segment leads nowhere else. -/
def isIdle (segment : String) : Bool :=
  segment = "" || segment = "."

/-- Segments without the idle ones that end them. -/
def dropIdleEnd (names : List String) : List String :=
  (names.reverse.dropWhile isIdle).reverse

/-- The last name of a path, and the segments before it. -/
def splitLast? (path : String) : Option (List String × String) :=
  match (segments path).reverse.dropWhile isIdle with
  | [] => none
  | name :: before => if name = ".." then none else some (before.reverse, name)

def fileName? (path : String) : Option String :=
  (splitLast? path).map Prod.snd

/-- A name cut at its last dot. A name without a dot, or with none but a dot that it starts with,
is all stem. -/
def splitName (name : String) : String × Option String :=
  let reversed := name.toList.reverse
  let extension := reversed.takeWhile (· != '.')
  match reversed.drop extension.length with
  | [] => (name, none)
  | [_] => (name, none)
  | _ :: stem => (String.ofList stem.reverse, some (String.ofList extension.reverse))

/-- The last name of a path without its extension. -/
def stem? (path : String) : Option String :=
  (fileName? path).map fun name => (splitName name).1

def extension? (path : String) : Option String :=
  (fileName? path).bind fun name => (splitName name).2

/-- A path whose last name has another extension, or is given one. -/
def putExtension (path extension : String) : String :=
  match splitLast? path with
  | none => path
  | some (before, name) => ofSegments (before ++ [(splitName name).1 ++ "." ++ extension])

/-- A path with another extension. As many characters as the old extension has are taken from the
end first, so that `..py` becomes `..`, which has no name to extend. -/
def withExtension (path extension : String) : String :=
  match extension? path with
  | none => putExtension path extension
  | some old => putExtension (String.ofList (path.toList.take (path.length - old.length))) extension

/-- The path of the directory that holds what a path leads to. A root, and the empty path, have
none. -/
def parent? (path : String) : Option String :=
  match (segments path).reverse.dropWhile isIdle with
  | [] => if path.toList.head? = some '.' then some "" else none
  | _ :: before =>
    match dropIdleEnd before.reverse with
    | [] =>
      some (if isAbsolute path then "/"
        else if before.reverse.head? = some "." then "." else "")
    | names => some (ofSegments names)

def join (path name : String) : String :=
  if isAbsolute name then name
  else if path = "" then name
  else if path.toList.getLast? = some '/' then path ++ name
  else path ++ "/" ++ name

/-- A path and the paths above it, at most `limit` of them in all. -/
def upwards : Nat → String → List String
  | 0, _ => []
  | limit + 1, path =>
    path :: match parent? path with
      | some above => upwards limit above
      | none => []

/-- A path and every path above it, nearest first. Each is shorter than the one below it. -/
def ancestors (path : String) : List String :=
  upwards (path.length + 1) path

end PycListing.Path
