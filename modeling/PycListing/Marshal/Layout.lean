import PycListing.Version

/-! # Stored layouts of code units

The marshal format stores a unit as counters, then fields that are objects of their own, with the
first line between the last two. Versions differ in the width of the counters and in the fields.
-/

namespace PycListing.Marshal

/-- How a version stores a code unit. -/
inductive CodeLayout where
  /-- 16-bit counters; `closures` tells whether there are free and cell variables. -/
  | short (closures : Bool)
  /-- 32-bit counters. -/
  | long
  /-- 32-bit counters, with one more for keyword-only parameters. -/
  | modern
  deriving DecidableEq, Repr

namespace CodeLayout

/-- The layout of a version. -/
def ofVersion (version : Version) : CodeLayout :=
  if version.atLeast 3 0 then .modern
  else if version.atLeast 2 3 then .long
  else .short (version.atLeast 2 1)

/-- The era of the units of a layout. -/
def era : CodeLayout → Era
  | .modern => .modern
  | _ => .legacy

/-- Whether free and cell variables are stored. -/
def hasClosures : CodeLayout → Bool
  | .short closures => closures
  | _ => true

/-- How many fields precede the first line; one more follows it. -/
def fieldsBeforeLine (layout : CodeLayout) : Nat :=
  if layout.hasClosures then 8 else 6

def counterWidth : CodeLayout → Nat
  | .short _ => 2
  | _ => 4

/-- The era of a version's layout is the era of the version. -/
theorem era_ofVersion (version : Version) : (ofVersion version).era = version.era := by
  simp only [ofVersion, Version.era, Version.atLeast_three_zero]
  split
  · rfl
  · split <;> rfl

end CodeLayout

end PycListing.Marshal
