import PycListing.Version

/-! # Opcode tables

A table gives each of the 256 opcode numbers of a version a mnemonic and the kind of its argument,
or leaves it undefined. It is assembled in steps: definitions are written to slots, a later one in
place of an earlier one, and removed from them.
-/

namespace PycListing

namespace Opcode

/-- Opcodes below this number take no argument. -/
def firstWithArgument : UInt8 :=
  90

/-- Whether an opcode is followed by an argument. -/
def hasArgument (op : UInt8) : Bool :=
  op >= firstWithArgument

/-- The operators that a comparison's argument selects. -/
def comparisons : List String :=
  ["<", "<=", "==", "!=", ">", ">=", "in", "not in", "is", "is not", "exception match", "BAD"]

/-- What the argument of an instruction denotes. -/
inductive ArgumentKind where
  | absent
  /-- A number without further meaning. -/
  | number
  | constant
  | name
  /-- A distance from the next instruction. -/
  | relativeJump
  /-- An offset in the instruction stream. -/
  | absoluteJump
  | variable
  | comparison
  /-- An index into the cell variables followed by the free variables. -/
  | cell
  /-- Counts of positional and keyword arguments, a byte each. -/
  | callCounts
  deriving DecidableEq, Repr

def ArgumentKind.isJump : ArgumentKind → Bool
  | .relativeJump => true
  | .absoluteJump => true
  | _ => false

structure Definition where
  mnemonic : String
  kind : ArgumentKind
  deriving DecidableEq, Repr

/-- The opcodes in increasing order. -/
def all : List UInt8 :=
  (List.range 256).map Nat.toUInt8

/-- One slot for each opcode, empty if the opcode is not defined. -/
structure Slots where
  entries : Vector (Option Definition) UInt8.size

namespace Slots

def empty : Slots :=
  ⟨Vector.replicate UInt8.size none⟩

def lookup (slots : Slots) (op : UInt8) : Option Definition :=
  have inRange : op.toNat < UInt8.size := op.toNat_lt
  slots.entries[op.toNat]

def put (slots : Slots) (op : UInt8) (entry : Option Definition) : Slots :=
  ⟨slots.entries.set op.toNat entry op.toNat_lt⟩

@[simp] theorem lookup_empty (op : UInt8) : empty.lookup op = none := by
  simp [empty, lookup]

theorem lookup_put (slots : Slots) (op other : UInt8) (entry : Option Definition) :
    (slots.put op entry).lookup other = if op = other then entry else slots.lookup other := by
  simp only [put, lookup, Vector.getElem_set, UInt8.toNat_inj]

/-- The highest opcode that bears a mnemonic. -/
def opcode? (slots : Slots) (mnemonic : String) : Option UInt8 :=
  all.reverse.find? fun op =>
    (slots.lookup op).any fun definition => definition.mnemonic == mnemonic

/-- The defined opcodes in increasing order. -/
def defined (slots : Slots) : List (UInt8 × Definition) :=
  all.filterMap fun op => (slots.lookup op).map fun definition => (op, definition)

end Slots

inductive Step where
  /-- Defines opcodes whose argument, if the number calls for one, is a plain number. -/
  | plain (entries : List (UInt8 × String))
  /-- Defines opcodes with the kinds of their arguments. -/
  | define (entries : List (UInt8 × Definition))
  | remove (entries : List (UInt8 × String))

/-- Defines opcodes that have one kind of argument in common. -/
def Step.typed (kind : ArgumentKind) (entries : List (UInt8 × String)) : Step :=
  .define (entries.map fun (op, mnemonic) => (op, ⟨mnemonic, kind⟩))

/-- The kind of an argument that is a plain number, if there is an argument. -/
def plainKind (op : UInt8) : ArgumentKind :=
  if hasArgument op then .number else .absent

namespace Slots

/-- The slots after definitions were written to them in order. -/
def define (slots : Slots) (entries : List (UInt8 × Definition)) : Slots :=
  entries.foldl (fun slots (op, definition) => slots.put op (some definition)) slots

def step (slots : Slots) : Step → Slots
  | .plain entries =>
    slots.define (entries.map fun (op, mnemonic) => (op, ⟨mnemonic, plainKind op⟩))
  | .define entries => slots.define entries
  | .remove entries => entries.foldl (fun slots (op, _) => slots.put op none) slots

def ofSteps (steps : List Step) : Slots :=
  steps.foldl step empty

end Slots

/-- The mnemonic of the opcode that extends the next instruction's argument. -/
def extenderName : String :=
  "EXTENDED_ARG"

/-- The opcodes of one version of one implementation. -/
structure Table where
  version : Version
  flavor : Flavor
  slots : Slots
  /-- The opcode that extends the next instruction's argument, if there is one. -/
  extender : Option UInt8 := slots.opcode? extenderName
  extender_eq : extender = slots.opcode? extenderName := by rfl

namespace Table

def ofSteps (version : Version) (flavor : Flavor) (steps : List Step) : Table where
  version := version
  flavor := flavor
  slots := Slots.ofSteps steps

def definition? (table : Table) (op : UInt8) : Option Definition :=
  table.slots.lookup op

/-- The mnemonic of an opcode; the number of an undefined one stands in angle brackets. -/
def mnemonic (table : Table) (op : UInt8) : String :=
  match table.definition? op with
  | some definition => definition.mnemonic
  | none => "<" ++ toString op.toNat ++ ">"

def opcode? (table : Table) (mnemonic : String) : Option UInt8 :=
  table.slots.opcode? mnemonic

/-- Whether every instruction is one two-byte word. -/
def isWordcode (table : Table) : Bool :=
  table.version.usesWordcode

/-- How many bits an extending argument is shifted by. -/
def extensionShift (table : Table) : Nat :=
  if table.isWordcode then 8 else 16

/-- What the argument of an extending opcode contributes, as text. -/
def extensionText? (table : Table) (op : UInt8) (arg : UInt32) : Option String :=
  if table.extender = some op then some (toString (arg.toNat * Nat.pow 2 table.extensionShift))
  else none

def size (table : Table) : Nat :=
  (table.slots.defined.map fun (_, definition) => definition.mnemonic).eraseDups.length

end Table

end Opcode

end PycListing
