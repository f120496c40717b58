import PycListing.Text.Blank
import PycListing.Text.Number

/-! # Interpreter versions

A compiled file is described by the version of the interpreter that wrote it and by the family of
implementations that interpreter belongs to. What differs between versions is stated as predicates
on `Version`.
-/

namespace PycListing

structure Version where
  major : UInt8
  minor : UInt8
  deriving DecidableEq, Repr

/-- The implementation family of an interpreter. -/
inductive Flavor where
  /-- The reference implementation. -/
  | cpython
  /-- The alternative implementation, which numbers some opcodes differently. -/
  | pypy
  deriving DecidableEq, Repr

/-- The layout family of the code objects that a version writes. -/
inductive Era where
  | legacy
  | modern
  deriving DecidableEq, Repr

def Flavor.name : Flavor → String
  | .cpython => "CPython"
  | .pypy => "PyPy"

namespace Version

def atLeast (version : Version) (major minor : UInt8) : Bool :=
  version.major > major || (version.major == major && version.minor >= minor)

def isModern (version : Version) : Bool :=
  version.major >= 3

/-- Whether every instruction is one two-byte word. -/
def usesWordcode (version : Version) : Bool :=
  version.atLeast 3 6

/-- Whether the container's header carries the size of the source. -/
def hasSourceSize (version : Version) : Bool :=
  version.atLeast 3 3

def era (version : Version) : Era :=
  if version.isModern then .modern else .legacy

theorem atLeast_three_zero (version : Version) : version.atLeast 3 0 = version.isModern := by
  rw [Bool.eq_iff_iff]
  simp only [atLeast, isModern, GT.gt, GE.ge, UInt8.lt_iff_toNat_lt, UInt8.le_iff_toNat_le,
    Bool.or_eq_true, Bool.and_eq_true, decide_eq_true_eq, beq_iff_eq, ← UInt8.toNat_inj,
    UInt8.reduceToNat]
  omega

def text (version : Version) : String :=
  toString version.major.toNat ++ "." ++ toString version.minor.toNat

/-- A text that is no version, as it was given. -/
structure Unreadable where
  given : String
  deriving DecidableEq, Repr

def Unreadable.message (error : Unreadable) : String :=
  "invalid version string `" ++ error.given ++ "`"

/-- The version that dot-separated components name: two numerals of a byte each, and a third
component, if any, that is a numeral of 32 bits. Later components are free. -/
def ofComponents? : List (List Char) → Option Version
  | major :: minor :: more =>
    match Text.numeral? 255 major, Text.numeral? 255 minor with
    | some major, some minor =>
      match more with
      | [] => some ⟨major.toUInt8, minor.toUInt8⟩
      | micro :: _ =>
        (Text.numeral? (Nat.pow 2 32 - 1) micro).map fun _ => ⟨major.toUInt8, minor.toUInt8⟩
    | _, _ => none
  | _ => none

/-- Reads a version such as `2.7` or `2.7.18`, white space around it allowed. -/
def parse (given : String) : Except Unreadable Version :=
  match ofComponents? ((Text.trimChars given.toList).splitOn '.') with
  | some version => .ok version
  | none => .error ⟨given⟩

end Version

end PycListing
