import PycListing.Code.Unit

/-! # Tags of the marshal format

Every object starts with a byte. Its low seven bits are a tag that tells what follows; its high
bit flags an object that later ones may refer to.
-/

namespace PycListing.Marshal

/-- The kinds of containers that hold a counted sequence of objects. -/
inductive SequenceKind where
  | tuple
  | list
  | set
  | frozenset
  deriving DecidableEq, Repr

/-- The value of a sequence with the given items. -/
def SequenceKind.wrap : SequenceKind → List Value → Value
  | .tuple => .tuple
  | .list => .list
  | .set => .set
  | .frozenset => .frozenset

/-- How the length of an object is stored. -/
inductive LengthForm where
  | short
  /-- A signed 32-bit number. -/
  | wide
  deriving DecidableEq, Repr

/-- The objects that hold no others. -/
inductive ScalarTag where
  | null
  | none
  | bool (b : Bool)
  | stopIteration
  | ellipsis
  | int32
  | int64
  | long
  | floatText
  | floatBits
  | complexText
  | complexBits
  | bytes
  /-- A string that later ones may refer to; text in the modern era, bytes in the legacy one. -/
  | interned
  /-- An interned string read before. -/
  | internedReference
  | text (form : LengthForm)
  /-- A flagged object read before. -/
  | reference
  deriving DecidableEq, Repr

/-- What an object's first byte announces. -/
inductive Tag where
  | scalar (tag : ScalarTag)
  | sequence (kind : SequenceKind) (form : LengthForm)
  | dict
  | unit
  deriving DecidableEq, Repr

/-- The tag of a byte from which the flag was cleared. -/
def Tag.ofByte? (byte : UInt8) : Option Tag :=
  match Char.ofNat byte.toNat with
  | '0' => some (.scalar .null)
  | 'N' => some (.scalar .none)
  | 'F' => some (.scalar (.bool false))
  | 'T' => some (.scalar (.bool true))
  | 'S' => some (.scalar .stopIteration)
  | '.' => some (.scalar .ellipsis)
  | 'i' => some (.scalar .int32)
  | 'I' => some (.scalar .int64)
  | 'l' => some (.scalar .long)
  | 'f' => some (.scalar .floatText)
  | 'g' => some (.scalar .floatBits)
  | 'x' => some (.scalar .complexText)
  | 'y' => some (.scalar .complexBits)
  | 's' => some (.scalar .bytes)
  | 't' => some (.scalar .interned)
  | 'R' => some (.scalar .internedReference)
  | 'u' => some (.scalar (.text .wide))
  | 'a' => some (.scalar (.text .wide))
  | 'A' => some (.scalar (.text .wide))
  | 'z' => some (.scalar (.text .short))
  | 'Z' => some (.scalar (.text .short))
  | 'r' => some (.scalar .reference)
  | '(' => some (.sequence .tuple .wide)
  | ')' => some (.sequence .tuple .short)
  | '[' => some (.sequence .list .wide)
  | '<' => some (.sequence .set .wide)
  | '>' => some (.sequence .frozenset .wide)
  | '\x7b' => some .dict
  | 'c' => some .unit
  | _ => Option.none

/-- The bit that flags an object. -/
def flagBit : UInt8 :=
  0x80

/-- Whether a first byte flags its object. -/
def isFlagged (byte : UInt8) : Bool :=
  byte &&& flagBit != 0

/-- A first byte without the flag. -/
def withoutFlag (byte : UInt8) : UInt8 :=
  byte &&& 0x7f

end PycListing.Marshal
