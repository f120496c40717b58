import PycListing.Container.Load
import PycListing.Disassembler
import PycListing.Opcode.Registry
import PycListing.Time

/-! # Listings of compiled files

The complete listing of a compiled file: comment lines on where it comes from, then the listing of
its units. It is produced as a whole or not at all.
-/

namespace PycListing

/-- What a listing contains and how it is ordered. -/
structure ListingOptions where
  /-- Whether the lines on the tool, the version and the host are written. -/
  header : Bool := true
  order : TraversalOrder := .dependency
  deriving DecidableEq, Repr

/-- Why a compiled file has no listing. -/
inductive ListingError where
  | notCode (found : String)
  | unsupported (error : Opcode.Unsupported)
  | undecodable (error : DecodeError)
  deriving DecidableEq, Repr

def ListingError.message : ListingError → String
  | .notCode found => "expected a code object, found " ++ found
  | .unsupported error => error.message
  | .undecodable error => error.message

/-- The version of this tool, as listings state it. -/
def toolVersion : String :=
  "0.1.0"

namespace CompiledModule

/-- The lines on the tool, the version of the file, and the host that disassembles it. -/
def headerLines (compiled : CompiledModule) (host : String) : List String :=
  let implementation := if compiled.flavor = .pypy then "PyPy " else ""
  let magic :=
    if 0 < compiled.magic then " (" ++ toString compiled.magic.toNat ++ ")" else ""
  ["# crossdis version " ++ toolVersion,
   "# " ++ implementation ++ "Python bytecode " ++ compiled.version.text ++ magic,
   "# Disassembled by " ++ host]

/-- The lines on the source: its time and its size, each only if it is not zero. -/
def sourceLines (compiled : CompiledModule) : List String :=
  (if 0 < compiled.timestamp then
    ["# Timestamp in code: " ++ toString compiled.timestamp.toNat ++ " (" ++
      Time.dateText compiled.timestamp.toNat ++ ")"]
  else []) ++
  (match compiled.sourceSize with
    | some size =>
      if 0 < size then
        ["# Source code size mod 2**32: " ++ toString size.toNat ++ " bytes"]
      else []
    | none => [])

/-- The root's metadata ahead of a listing in discovery order, for a root that has a filename. -/
def rootLines (disassembler : Disassembler) (order : TraversalOrder) (root : CodeUnit) :
    List String :=
  match order with
  | .discovery => if root.filename.isEmpty then [] else [disassembler.metadata root]
  | .dependency => []

/-- Lines, each with the newline that ends it. -/
def terminated (lines : List String) : String :=
  String.join (lines.map (· ++ "\n"))

/-- The root unit of a compiled file and the file's listing, made on some host. -/
def listing (compiled : CompiledModule) (host : String) (options : ListingOptions) :
    Except ListingError (CodeUnit × String) :=
  match compiled.root.unit? with
  | none => .error (.notCode compiled.root.typeName)
  | some root =>
    match Opcode.resolve compiled.version compiled.flavor with
    | .error error => .error (.unsupported error)
    | .ok table =>
      let disassembler := Disassembler.standard table
      match disassembler.render options.order root with
      | .error error => .error (.undecodable error)
      | .ok units => .ok (root,
          terminated ((if options.header then compiled.headerLines host else []) ++
            compiled.sourceLines ++ rootLines disassembler options.order root) ++ units)

/-- The listing of a compiled file, made on some host. -/
def render (compiled : CompiledModule) (host : String) (options : ListingOptions) :
    Except ListingError String :=
  (compiled.listing host options).map Prod.snd

end CompiledModule

end PycListing
