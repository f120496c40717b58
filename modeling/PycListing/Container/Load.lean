import PycListing.Container.Magic
import PycListing.Marshal.Reader

/-! # Compiled files

A compiled file is a header, then a marshal stream whose first object is the root unit. The header
holds the magic number, a line break, the time of the source and, from version 3.3 on, its size.
-/

namespace PycListing

structure CompiledModule where
  version : Version
  flavor : Flavor
  magic : UInt16
  /-- The time of the source in seconds since 1970, zero if it is not known. -/
  timestamp : UInt32
  /-- The size of the source modulo `2 ^ 32`, where the version stores it. -/
  sourceSize : Option UInt32
  /-- The first object of the stream, the root unit of a proper file. -/
  root : Value

namespace Container

inductive HeaderDefect where
  | tooShort
  | noLineBreak
  | noSourceSize
  deriving DecidableEq, Repr

def HeaderDefect.text : HeaderDefect → String
  | .tooShort => "file shorter than its header"
  | .noLineBreak => "magic number is not followed by CRLF"
  | .noSourceSize => "missing source size"

/-- Why a byte string is no compiled file. -/
inductive LoadError where
  | badHeader (defect : HeaderDefect)
  | unknownMagic (magic : UInt16)
  | badStream (error : Marshal.Error)
  deriving DecidableEq, Repr

def LoadError.message : LoadError → String
  | .badHeader defect => "not a compiled Python file: " ++ defect.text
  | .unknownMagic magic => "unknown magic number " ++ toString magic.toNat
  | .badStream error => error.message

def lineBreak : List UInt8 :=
  [0x0d, 0x0a]

def field (data : List UInt8) (offset width : Nat) : Nat :=
  littleEndian ((data.drop offset).take width)

/-- The size of the source, where a version stores it, and what follows the header. -/
def afterTimestamp (version : Version) (data : List UInt8) :
    Except LoadError (Option UInt32 × List UInt8) :=
  if version.hasSourceSize then
    if data.length < 12 then .error (.badHeader .noSourceSize)
    else .ok (some (field data 8 4).toUInt32, data.drop 12)
  else
    .ok (none, data.drop 8)

def load (data : List UInt8) : Except LoadError CompiledModule :=
  if data.length < 8 then .error (.badHeader .tooShort)
  else if (data.drop 2).take 2 ≠ lineBreak then .error (.badHeader .noLineBreak)
  else
    let magic := (field data 0 2).toUInt16
    match producer? magic with
    | none => .error (.unknownMagic magic)
    | some (version, flavor) =>
      match afterTimestamp version data with
      | .error error => .error error
      | .ok (sourceSize, body) =>
        match Marshal.readFirst version body with
        | .error error => .error (.badStream error)
        | .ok root => .ok
          { version, flavor, magic, sourceSize, root, timestamp := (field data 4 4).toUInt32 }

end Container

end PycListing
