import PycListing.Marshal.Frame
import PycListing.Proofs.LittleEndian
import Mathlib.Data.Nat.Digits.Defs

/-! # The marshal format

A byte string is an encoding of a value if it is built by the grammar of this module
(`PycListing.Marshal.Written`). The same value has many encodings: most objects may be written
with one of several letters, every object may be flagged, and an object that was complete before
may be written as a reference to it. What can be referred to is kept in tables, which the grammar
threads through the stream.
-/

namespace PycListing.Marshal

/-! ## Versions -/

/-- The layout of the units that a version stores. -/
def storedLayout (version : Version) : CodeLayout :=
  match version.major.toNat, version.minor.toNat with
  | 0, _ => .short false
  | 1, _ => .short false
  | 2, 0 => .short false
  | 2, 1 => .short true
  | 2, 2 => .short true
  | 2, _ => .long
  | _, _ => .modern

/-! ## Tables -/

/-- What can be referred to: the flagged objects, of which those that are not complete hold no
value yet, and the interned strings. -/
structure Tables where
  slots : Array (Option Value)
  interned : Array Value

namespace Tables

def empty : Tables :=
  ⟨#[], #[]⟩

/-- The tables with a slot for one more flagged object. -/
def reserve (tables : Tables) : Tables :=
  { tables with slots := tables.slots.push none }

/-- The tables with the value of a flagged object that is complete. -/
def fill (tables : Tables) (slot : Nat) (value : Value) : Tables :=
  { tables with slots := tables.slots.setIfInBounds slot (some value) }

/-- The tables with one more interned string. -/
def intern (tables : Tables) (value : Value) : Tables :=
  { tables with interned := tables.interned.push value }

/-- The state of a reader with these tables at a place of a stream. -/
def state (tables : Tables) (input : Cursor) : State :=
  ⟨input, tables.slots, tables.interned⟩

end Tables

/-! ## Objects -/

/-- The first byte of an object, the letter of its tag with or without the flag. -/
def firstByte (letter : Char) (flagged : Bool) : UInt8 :=
  letter.toNat.toUInt8 ||| if flagged then 0x80 else 0

/-- The letter of a sequence whose length is stored in 32 bits. -/
def SequenceKind.letter : SequenceKind → Char
  | .tuple => '('
  | .list => '['
  | .set => '<'
  | .frozenset => '>'

inductive Part where
  | object (value : Value)
  /-- What follows the first byte of an object. -/
  | payload (letter : Char) (value : Value)
  | items (values : List Value)
  /-- The entries of a dict, up to the marker of their end. -/
  | entries (pairs : List (Value × Value))

/-! ## Units -/

def storedWidth : CodeLayout → Nat
  | .short _ => 2
  | .long => 4
  | .modern => 4

def counterBytes (layout : CodeLayout) (counter : UInt32) : List UInt8 :=
  littleEndianBytes (storedWidth layout) counter.toNat

/-- The counters that a stored unit starts with. Modern units have one more. -/
def headBytes (layout : CodeLayout) (unit : CodeUnit) : List UInt8 :=
  counterBytes layout unit.argCount ++
    ((if layout = .modern then counterBytes layout unit.kwOnlyArgCount else []) ++
      (counterBytes layout unit.localCount ++
        (counterBytes layout unit.stackSize ++ counterBytes layout unit.flags)))

structure CodeUnit.Fits (layout : CodeLayout) (unit : CodeUnit) : Prop where
  era : unit.era = if layout = .modern then .modern else .legacy
  kwOnly : layout ≠ .modern → unit.kwOnlyArgCount = 0
  closures : layout = .short false → unit.freevars = [] ∧ unit.cellvars = []
  counters : ∀ counter ∈ [unit.argCount, unit.localCount, unit.stackSize, unit.flags,
    unit.firstLine], counter.toNat < 256 ^ storedWidth layout

/-- The values that stand for bytes in a unit's field. -/
inductive StoresBytes : Value → List UInt8 → Prop where
  | bytes (content : List UInt8) : StoresBytes (.bytes content) content
  | str (text : String) : StoresBytes (.str text) (Text.utf8Bytes text)

/-- The values that stand for a text in a unit's field. -/
inductive StoresText : Value → String → Prop where
  | str (text : String) : StoresText (.str text) text
  | bytes (text : String) : StoresText (.bytes (Text.utf8Bytes text)) text

/-- The values that stand for a list of values in a unit's field. -/
inductive StoresItems : Value → List Value → Prop where
  | tuple (items : List Value) : StoresItems (.tuple items) items
  | list (items : List Value) : StoresItems (.list items) items

/-- A value that stands for a list of texts in a unit's field. -/
def StoresTexts (value : Value) (texts : List String) : Prop :=
  ∃ items, StoresItems value items ∧ List.Forall₂ StoresText items texts

/-- The fields that stand for those of a unit. -/
structure Fields.Stores (fields : Fields) (unit : CodeUnit) : Prop where
  code : StoresBytes fields.code unit.code
  consts : StoresItems fields.consts unit.consts
  names : StoresTexts fields.names unit.names
  varnames : StoresTexts fields.varnames unit.varnames
  freevars : StoresTexts fields.freevars unit.freevars
  cellvars : StoresTexts fields.cellvars unit.cellvars
  filename : StoresText fields.filename unit.filename
  name : StoresText fields.name unit.name
  lineTable : StoresBytes fields.lineTable unit.lineTable

/-- The fields before the first line. The earliest layout has no variables of closures. -/
def Fields.beforeLine (fields : Fields) : CodeLayout → List Value
  | .short false =>
    [fields.code, fields.consts, fields.names, fields.varnames, fields.filename, fields.name]
  | _ =>
    [fields.code, fields.consts, fields.names, fields.varnames, fields.freevars, fields.cellvars,
      fields.filename, fields.name]

/-! ## The grammar -/

/-- **The grammar of the format.** The bytes of a part, given the number of levels that may be
opened below it, with the tables before and after it. -/
inductive Written (layout : CodeLayout) : Nat → Tables → Part → List UInt8 → Tables → Prop where
  | plain {levels : Nat} {before after : Tables} {letter : Char} {value : Value}
      {bytes : List UInt8}
      (payload : Written layout levels before (.payload letter value) bytes after) :
      Written layout (levels + 1) before (.object value) (firstByte letter false :: bytes) after
  | flagged {levels : Nat} {before after : Tables} {letter : Char} {value : Value}
      {bytes : List UInt8}
      (payload : Written layout levels before.reserve (.payload letter value) bytes after) :
      Written layout (levels + 1) before (.object value) (firstByte letter true :: bytes)
        (after.fill before.slots.size value)
  | null {levels : Nat} {tables : Tables} :
      Written layout levels tables (.payload '0' .null) [] tables
  | none {levels : Nat} {tables : Tables} :
      Written layout levels tables (.payload 'N' .none) [] tables
  | false {levels : Nat} {tables : Tables} :
      Written layout levels tables (.payload 'F' (.bool false)) [] tables
  | true {levels : Nat} {tables : Tables} :
      Written layout levels tables (.payload 'T' (.bool true)) [] tables
  | stopIteration {levels : Nat} {tables : Tables} :
      Written layout levels tables (.payload 'S' .stopIteration) [] tables
  | ellipsis {levels : Nat} {tables : Tables} :
      Written layout levels tables (.payload '.' .ellipsis) [] tables
  | int32 {levels : Nat} {tables : Tables} {n : Int} (low : -2 ^ 31 ≤ n) (high : n < 2 ^ 31) :
      Written layout levels tables (.payload 'i' (.int n)) (signedBytes 4 n) tables
  | int64 {levels : Nat} {tables : Tables} {n : Int} (low : -2 ^ 63 ≤ n) (high : n < 2 ^ 63) :
      Written layout levels tables (.payload 'I' (.int n)) (signedBytes 8 n) tables
  | long {levels : Nat} {tables : Tables} {digits : List Nat}
      (short : digits.length < 2 ^ 31) (small : ∀ digit ∈ digits, digit < 2 ^ 15) :
      Written layout levels tables
        (.payload 'l' (.long (toString (Nat.ofDigits (2 ^ 15) digits))))
        (signedBytes 4 digits.length ++ digits.flatMap (littleEndianBytes 2)) tables
  | negativeLong {levels : Nat} {tables : Tables} {digits : List Nat}
      (short : digits.length < 2 ^ 31) (small : ∀ digit ∈ digits, digit < 2 ^ 15) :
      Written layout levels tables
        (.payload 'l' (.long (toString (-(Nat.ofDigits (2 ^ 15) digits : Nat) : Int))))
        (signedBytes 4 (-digits.length) ++ digits.flatMap (littleEndianBytes 2)) tables
  | float {levels : Nat} {tables : Tables} {bits : UInt64} :
      Written layout levels tables (.payload 'g' (.float bits)) (littleEndianBytes 8 bits.toNat)
        tables
  | complex {levels : Nat} {tables : Tables} {re im : UInt64} :
      Written layout levels tables (.payload 'y' (.complex re im))
        (littleEndianBytes 8 re.toNat ++ littleEndianBytes 8 im.toNat) tables
  | bytes {levels : Nat} {tables : Tables} {content : List UInt8}
      (short : content.length < 2 ^ 31) :
      Written layout levels tables (.payload 's' (.bytes content))
        (signedBytes 4 content.length ++ content) tables
  | text {levels : Nat} {tables : Tables} {letter : Char} {text : String}
      (known : letter ∈ ['u', 'a', 'A']) (short : (Text.utf8Bytes text).length < 2 ^ 31) :
      Written layout levels tables (.payload letter (.str text))
        (signedBytes 4 (Text.utf8Bytes text).length ++ Text.utf8Bytes text) tables
  | shortText {levels : Nat} {tables : Tables} {letter : Char} {text : String}
      (known : letter ∈ ['z', 'Z']) (short : (Text.utf8Bytes text).length < 256) :
      Written layout levels tables (.payload letter (.str text))
        ((Text.utf8Bytes text).length.toUInt8 :: Text.utf8Bytes text) tables
  | internedText {levels : Nat} {tables : Tables} {text : String} (modern : layout = .modern)
      (short : (Text.utf8Bytes text).length < 2 ^ 31) :
      Written layout levels tables (.payload 't' (.str text))
        (signedBytes 4 (Text.utf8Bytes text).length ++ Text.utf8Bytes text)
        (tables.intern (.str text))
  | internedBytes {levels : Nat} {tables : Tables} {content : List UInt8}
      (legacy : layout ≠ .modern) (short : content.length < 2 ^ 31) :
      Written layout levels tables (.payload 't' (.bytes content))
        (signedBytes 4 content.length ++ content) (tables.intern (.bytes content))
  | reference {levels : Nat} {tables : Tables} {slot : Nat} {value : Value}
      (small : slot < 2 ^ 31) (complete : tables.slots[slot]? = some (some value)) :
      Written layout levels tables (.payload 'r' value) (signedBytes 4 slot) tables
  | internedReference {levels : Nat} {tables : Tables} {place : Nat} {value : Value}
      (small : place < 2 ^ 31) (present : tables.interned[place]? = some value) :
      Written layout levels tables (.payload 'R' value) (signedBytes 4 place) tables
  | sequence {levels : Nat} {before after : Tables} {kind : SequenceKind} {values : List Value}
      {bytes : List UInt8} (short : values.length < 2 ^ 31)
      (items : Written layout levels before (.items values) bytes after) :
      Written layout levels before (.payload kind.letter (kind.wrap values))
        (signedBytes 4 values.length ++ bytes) after
  | shortTuple {levels : Nat} {before after : Tables} {values : List Value} {bytes : List UInt8}
      (short : values.length < 256)
      (items : Written layout levels before (.items values) bytes after) :
      Written layout levels before (.payload ')' (.tuple values))
        (values.length.toUInt8 :: bytes) after
  | dict {levels : Nat} {before after : Tables} {pairs : List (Value × Value)}
      {bytes : List UInt8} (entries : Written layout levels before (.entries pairs) bytes after) :
      Written layout levels before (.payload '\x7b' (.dict pairs)) bytes after
  | unit {levels : Nat} {before middle after : Tables} {unit : CodeUnit} {fields : Fields}
      {front last : List UInt8} (fits : CodeUnit.Fits layout unit) (stores : fields.Stores unit)
      (frontFields : Written layout levels before (.items (fields.beforeLine layout)) front middle)
      (lastField : Written layout levels middle (.object fields.lineTable) last after) :
      Written layout levels before (.payload 'c' (.code unit))
        (headBytes layout unit ++ (front ++ (counterBytes layout unit.firstLine ++ last))) after
  | noItems {levels : Nat} {tables : Tables} : Written layout levels tables (.items []) [] tables
  | item {levels : Nat} {before middle after : Tables} {value : Value} {values : List Value}
      {bytes rest : List UInt8} (first : Written layout levels before (.object value) bytes middle)
      (others : Written layout levels middle (.items values) rest after) :
      Written layout levels before (.items (value :: values)) (bytes ++ rest) after
  | noEntries {levels : Nat} {before after : Tables} {bytes : List UInt8}
      (marker : Written layout levels before (.object .null) bytes after) :
      Written layout levels before (.entries []) bytes after
  | entry {levels : Nat} {before middle later after : Tables} {key value : Value}
      {pairs : List (Value × Value)} {keyBytes valueBytes rest : List UInt8}
      (isKey : key ≠ .null)
      (keyWritten : Written layout levels before (.object key) keyBytes middle)
      (valueWritten : Written layout levels middle (.object value) valueBytes later)
      (others : Written layout levels later (.entries pairs) rest after) :
      Written layout levels before (.entries ((key, value) :: pairs))
        (keyBytes ++ (valueBytes ++ rest)) after

end PycListing.Marshal
