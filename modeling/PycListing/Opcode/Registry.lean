import PycListing.Opcode.Alternative

/-! # Registered opcode tables

The versions that can be disassembled, in the order in which they are listed.
-/

namespace PycListing.Opcode

def registry : List Table :=
  [.ofSteps ⟨1, 5⟩ .cpython Legacy.steps15,
   .ofSteps ⟨2, 0⟩ .cpython Legacy.steps20,
   .ofSteps ⟨2, 1⟩ .cpython Legacy.steps21,
   .ofSteps ⟨2, 2⟩ .cpython Legacy.steps22,
   .ofSteps ⟨2, 3⟩ .cpython Legacy.steps23,
   .ofSteps ⟨2, 4⟩ .cpython Legacy.steps24,
   .ofSteps ⟨2, 5⟩ .cpython Legacy.steps25,
   .ofSteps ⟨2, 6⟩ .cpython Legacy.steps26,
   .ofSteps ⟨2, 7⟩ .cpython Legacy.steps27,
   .ofSteps ⟨3, 0⟩ .cpython Modern.steps30,
   .ofSteps ⟨3, 1⟩ .cpython Modern.steps31,
   .ofSteps ⟨3, 2⟩ .cpython Modern.steps32,
   .ofSteps ⟨3, 3⟩ .cpython Modern.steps33,
   .ofSteps ⟨3, 4⟩ .cpython Modern.steps34,
   .ofSteps ⟨3, 5⟩ .cpython Modern.steps35,
   .ofSteps ⟨3, 6⟩ .cpython Modern.steps36,
   .ofSteps ⟨2, 6⟩ .pypy Alternative.steps26,
   .ofSteps ⟨2, 7⟩ .pypy Alternative.steps27,
   .ofSteps ⟨3, 2⟩ .pypy Alternative.steps32,
   .ofSteps ⟨3, 5⟩ .pypy Alternative.steps35]

/-- A version that has no table. -/
structure Unsupported where
  version : Version
  flavor : Flavor
  deriving DecidableEq, Repr

def Unsupported.message (error : Unsupported) : String :=
  error.flavor.name ++ " " ++ error.version.text ++ " is not a Python version I know about"

/-- The registered table of a version of an implementation. -/
def table? (version : Version) (flavor : Flavor) : Option Table :=
  registry.find? fun table => table.version == version && table.flavor == flavor

/-- The table of a version of an implementation, or the error that there is none. -/
def resolve (version : Version) (flavor : Flavor) : Except Unsupported Table :=
  match table? version flavor with
  | some table => .ok table
  | none => .error ⟨version, flavor⟩

def isSupported (version : Version) (flavor : Flavor) : Bool :=
  (table? version flavor).isSome

def flavors (version : Version) : List Flavor :=
  (registry.filter fun table => table.version == version).map Table.flavor

/-- Every registered pair, in order. -/
def supported : List (Version × Flavor) :=
  registry.map fun table => (table.version, table.flavor)

end PycListing.Opcode
