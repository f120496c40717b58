import PycListing.Code.Literal

/-! # Metadata blocks

The block of comment lines that describes a unit ahead of its instructions: identity, counts,
flags, and every pool of names.
-/

namespace PycListing

/-- The flags with one meaning in every era. -/
def sharedFlags : List (UInt32 × String) :=
  [(0x0001, "OPTIMIZED"), (0x0002, "NEWLOCALS"), (0x0004, "VARARGS"), (0x0008, "VARKEYWORDS"),
   (0x0010, "NESTED"), (0x0020, "GENERATOR"), (0x0040, "NOFREE")]

/-- The further flags of an era. -/
def Era.ownFlags : Era → List (UInt32 × String)
  | .legacy =>
    [(0x01000, "GENERATOR_ALLOWED"), (0x02000, "FUTURE_DIVISION"),
     (0x04000, "FUTURE_ABSOLUTE_IMPORT"), (0x08000, "FUTURE_WITH_STATEMENT"),
     (0x10000, "FUTURE_PRINT_FUNCTION"), (0x20000, "FUTURE_UNICODE_LITERALS")]
  | .modern =>
    [(0x00080, "COROUTINE"), (0x00100, "ITERABLE_COROUTINE"), (0x00200, "ASYNC_GENERATOR"),
     (0x40000, "FUTURE_BARRY_AS_BDFL"), (0x80000, "FUTURE_GENERATOR_STOP")]

def Era.flags (era : Era) : List (UInt32 × String) :=
  sharedFlags ++ era.ownFlags

/-- The text of one flag bit: its name in the era, or its number in hexadecimal. -/
def flagText (era : Era) (bit : UInt32) : String :=
  match era.flags.lookup bit with
  | some name => name
  | none => "0x" ++ Text.hex 0 bit.toNat

/-- The set bits of a word, in increasing order. -/
def setBits (word : UInt32) : List UInt32 :=
  (List.range 32).filterMap fun place =>
    let bit := (1 : UInt32) <<< place.toUInt32
    if word &&& bit = 0 then none else some bit

/-- The entries of a flags word: one per set bit, or a lone zero. -/
def flagEntries (era : Era) (word : UInt32) : List String :=
  match setBits word with
  | [] => ["0x0"]
  | bits => bits.map (flagText era)

/-- A flags word as its hexadecimal number and the list of what it sets. -/
def flagsText (era : Era) (word : UInt32) : String :=
  "0x" ++ Text.hex 8 word.toNat ++ " (" ++ " | ".intercalate (flagEntries era word) ++ ")"

namespace CodeUnit

/-- Entries numbered from `first` on, one to a line. -/
def numberedLines (first : Nat) : List String → List String
  | [] => []
  | entry :: rest =>
    ("# " ++ Text.padLeft 4 (toString first) ++ ": " ++ entry) :: numberedLines (first + 1) rest

/-- A titled list of numbered entries, nothing if there are none. -/
def numberedSection (title : String) (first : Nat) (entries : List String) : List String :=
  if entries.isEmpty then [] else ("# " ++ title ++ ":") :: numberedLines first entries

/-- A titled list of names on one line, nothing if there are none. -/
def nameSection (title : String) (names : List String) : List String :=
  if names.isEmpty then [] else ["# " ++ title ++ ":", "#\t" ++ ", ".intercalate names]

/-- How many of the variable names are those of positional parameters. -/
def positionalCount (unit : CodeUnit) : Nat :=
  min unit.argCount.toNat unit.varnames.length

/-- The lines on a unit's identity, its counters and its flags. -/
def counterLines (unit : CodeUnit) (version : Version) : List String :=
  ["# Method Name:       " ++ unit.name,
   "# Filename:          " ++ unit.filename,
   "# Argument count:    " ++ toString unit.argCount.toNat] ++
  (if version.isModern then
    ["# Kw-only arguments: " ++ toString unit.kwOnlyArgCount.toNat] else []) ++
  ["# Number of locals:  " ++ toString unit.localCount.toNat,
   "# Stack size:        " ++ toString unit.stackSize.toNat,
   "# Flags:             " ++ flagsText unit.era unit.flags,
   "# First Line:        " ++ toString unit.firstLine.toNat]

/-- The lines of a unit's metadata block, as a version lays it out. -/
def metadataLines (unit : CodeUnit) (version : Version) : List String :=
  unit.counterLines version ++
  numberedSection "Constants" 0 (unit.consts.map (Value.literal unit.era)) ++
  numberedSection "Names" 0 unit.names ++
  nameSection "Varnames" unit.varnames ++
  nameSection "Positional arguments" (unit.varnames.take unit.positionalCount) ++
  numberedSection "Local variables" unit.positionalCount
    (unit.varnames.drop unit.positionalCount) ++
  numberedSection "Free variables" 0 unit.freevars ++
  numberedSection "Cell variables" 0 unit.cellvars

/-- A unit's metadata block, without a newline at its end. -/
def metadata (unit : CodeUnit) (version : Version) : String :=
  "\n".intercalate (unit.metadataLines version)

end CodeUnit

end PycListing
