import PycListing.Text.Utf8
import PycListing.Version

/-! # Code units and their constants

A compiled file holds one root code unit, and a unit's constants hold the units nested in it. A
unit is built of units that were complete before it, so units and their constants form a tree.
-/

namespace PycListing

mutual

/-- A value of a unit's constant pool. Floats are kept as the bits of a double. -/
inductive Value where
  /-- The marker that ends a stored dict. -/
  | null
  | none
  | bool (b : Bool)
  | stopIteration
  | ellipsis
  /-- An integer that was stored in at most 64 bits. -/
  | int (n : Int)
  /-- An integer of any size, as its decimal text. -/
  | long (text : String)
  | float (bits : UInt64)
  | complex (re im : UInt64)
  | bytes (content : List UInt8)
  | str (text : String)
  | tuple (items : List Value)
  | list (items : List Value)
  | dict (pairs : List (Value × Value))
  | set (items : List Value)
  | frozenset (items : List Value)
  | code (unit : CodeUnit)

/-- A compiled code unit. The first names of `varnames` are those of the positional parameters. -/
structure CodeUnit where
  era : Era
  argCount : UInt32
  /-- The number of keyword-only parameters, zero in a legacy unit. -/
  kwOnlyArgCount : UInt32
  localCount : UInt32
  stackSize : UInt32
  flags : UInt32
  code : List UInt8
  /-- The constant pool, the one place where nested units live. -/
  consts : List Value
  names : List String
  varnames : List String
  freevars : List String
  cellvars : List String
  filename : String
  name : String
  firstLine : UInt32
  /-- The line table, pairs of a byte increment and a line increment. -/
  lineTable : List UInt8

end

namespace Value

instance : Inhabited Value :=
  ⟨.none⟩

/-- The name of a value's type, as diagnostics give it. -/
def typeName : Value → String
  | .null => "NULL"
  | .none => "NoneType"
  | .bool _ => "bool"
  | .stopIteration => "StopIteration"
  | .ellipsis => "ellipsis"
  | .int _ => "int"
  | .long _ => "int"
  | .float _ => "float"
  | .complex _ _ => "complex"
  | .bytes _ => "bytes"
  | .str _ => "str"
  | .tuple _ => "tuple"
  | .list _ => "list"
  | .dict _ => "dict"
  | .set _ => "set"
  | .frozenset _ => "frozenset"
  | .code _ => "code"

def unit? : Value → Option CodeUnit
  | .code unit => some unit
  | _ => Option.none

/-- Whether a value is a unit; a container of units is not. -/
def isCode (value : Value) : Bool :=
  value.unit?.isSome

/-- The text that a string-like value holds; bytes that are not UTF-8 show as U+FFFD. -/
def text? : Value → Option String
  | .str text => some text
  | .bytes content => some (Text.ofUtf8Lossy content)
  | _ => Option.none

end Value

namespace CodeUnit

/-- The name that compilers give to the top-level unit of a file. -/
def moduleName : String :=
  "<module>"

def isModule (unit : CodeUnit) : Bool :=
  unit.name == moduleName

/-- The units that stand directly in the constant pool, in its order. -/
def nested (unit : CodeUnit) : List CodeUnit :=
  unit.consts.filterMap Value.unit?

/-- The flag of a unit that accepts further positional arguments. -/
def varArgsFlag : UInt32 :=
  0x4

/-- The flag of a unit that accepts further keyword arguments. -/
def varKeywordsFlag : UInt32 :=
  0x8

def acceptsVarArgs (unit : CodeUnit) : Bool :=
  unit.flags &&& varArgsFlag != 0

def acceptsVarKeywords (unit : CodeUnit) : Bool :=
  unit.flags &&& varKeywordsFlag != 0

/-- A unit of a name with every other field empty or zero. -/
def blank (era : Era) (name : String) : CodeUnit where
  era := era
  argCount := 0
  kwOnlyArgCount := 0
  localCount := 0
  stackSize := 0
  flags := 0
  code := []
  consts := []
  names := []
  varnames := []
  freevars := []
  cellvars := []
  filename := ""
  name := name
  firstLine := 0
  lineTable := []

instance : Inhabited CodeUnit :=
  ⟨blank .modern ""⟩

theorem sizeOf_lt_of_unit?_eq_some {value : Value} {unit : CodeUnit}
    (isUnit : value.unit? = some unit) : sizeOf unit < sizeOf value := by
  cases value <;> simp only [Value.unit?, reduceCtorEq, Option.some.injEq] at isUnit
  subst isUnit
  simp only [Value.code.sizeOf_spec]
  omega

/-- Nested units are together no larger than the constants that hold them. -/
theorem sizeOf_filterMap_unit?_le (consts : List Value) :
    sizeOf (consts.filterMap Value.unit?) ≤ sizeOf consts := by
  induction consts with
  | nil => simp
  | cons value rest ih =>
    cases found : value.unit? with
    | none =>
      rw [List.filterMap_cons_none found, List.cons.sizeOf_spec]
      omega
    | some unit =>
      have smaller := sizeOf_lt_of_unit?_eq_some found
      rw [List.filterMap_cons_some found, List.cons.sizeOf_spec, List.cons.sizeOf_spec]
      omega

theorem sizeOf_consts_lt (unit : CodeUnit) : sizeOf unit.consts < sizeOf unit := by
  cases unit
  simp only [CodeUnit.mk.sizeOf_spec]
  omega

/-- The units nested in a unit are together smaller than it. -/
theorem sizeOf_nested_lt (unit : CodeUnit) : sizeOf unit.nested < sizeOf unit :=
  Nat.lt_of_le_of_lt (sizeOf_filterMap_unit?_le _) (sizeOf_consts_lt unit)

end CodeUnit

end PycListing
