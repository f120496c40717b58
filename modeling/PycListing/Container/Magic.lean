import PycListing.Version

/-! # Magic numbers

The first two bytes of a compiled file name the interpreter that wrote it.
-/

namespace PycListing.Container

/-- A version and implementation, with an inclusive range of the magic numbers that it writes. -/
structure MagicRange where
  first : UInt16
  last : UInt16
  version : Version
  flavor : Flavor

def MagicRange.holds (range : MagicRange) (magic : UInt16) : Bool :=
  range.first <= magic && magic <= range.last

/-- Whether a range belongs to a version of an implementation. -/
def MagicRange.isOf (range : MagicRange) (version : Version) (flavor : Flavor) : Bool :=
  range.version == version && range.flavor == flavor

/-- The known magic numbers. Those of the alternative implementation stand first, since they lie
close to the ranges of the other. -/
def magicRanges : List MagicRange :=
  [⟨62168, 62168, ⟨2, 6⟩, .pypy⟩,
   ⟨62218, 62218, ⟨2, 7⟩, .pypy⟩,
   ⟨3187, 3187, ⟨3, 2⟩, .pypy⟩,
   ⟨3357, 3357, ⟨3, 5⟩, .pypy⟩,
   ⟨20121, 20121, ⟨1, 5⟩, .cpython⟩,
   ⟨50428, 50428, ⟨1, 6⟩, .cpython⟩,
   ⟨50823, 50823, ⟨2, 0⟩, .cpython⟩,
   ⟨60202, 60202, ⟨2, 1⟩, .cpython⟩,
   ⟨60717, 60717, ⟨2, 2⟩, .cpython⟩,
   ⟨62011, 62011, ⟨2, 3⟩, .cpython⟩,
   ⟨62021, 62021, ⟨2, 3⟩, .cpython⟩,
   ⟨62041, 62061, ⟨2, 4⟩, .cpython⟩,
   ⟨62071, 62131, ⟨2, 5⟩, .cpython⟩,
   ⟨62151, 62151, ⟨2, 6⟩, .cpython⟩,
   ⟨62161, 62161, ⟨2, 6⟩, .cpython⟩,
   ⟨62171, 62211, ⟨2, 7⟩, .cpython⟩,
   ⟨3000, 3131, ⟨3, 0⟩, .cpython⟩,
   ⟨3141, 3141, ⟨3, 1⟩, .cpython⟩,
   ⟨3151, 3151, ⟨3, 1⟩, .cpython⟩,
   ⟨3160, 3180, ⟨3, 2⟩, .cpython⟩,
   ⟨3190, 3230, ⟨3, 3⟩, .cpython⟩,
   ⟨3250, 3310, ⟨3, 4⟩, .cpython⟩,
   ⟨3320, 3351, ⟨3, 5⟩, .cpython⟩,
   ⟨3360, 3379, ⟨3, 6⟩, .cpython⟩]

/-- The version and implementation that write a magic number. -/
def producer? (magic : UInt16) : Option (Version × Flavor) :=
  (magicRanges.find? (·.holds magic)).map fun range => (range.version, range.flavor)

/-- The latest magic number that a version of an implementation writes. -/
def latestMagic? (version : Version) (flavor : Flavor) : Option UInt16 :=
  ((magicRanges.filter (·.isOf version flavor)).map MagicRange.last).max?

end PycListing.Container
