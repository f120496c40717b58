import PycListing.Code.Unit

/-! # Building code units

A unit is built from a blank one by a sequence of changes, each of which concerns one field.
-/

namespace PycListing

namespace CodeUnit

/-- One step in building a unit: a field to be set, or a constant to be added to the pool. -/
inductive Change where
  | filename (text : String)
  | argCount (n : UInt32)
  | kwOnlyArgCount (n : UInt32)
  | localCount (n : UInt32)
  | stackSize (n : UInt32)
  | flags (bits : UInt32)
  | code (bytes : List UInt8)
  | consts (values : List Value)
  /-- Adds a constant at the end of the pool. -/
  | addConst (value : Value)
  | names (texts : List String)
  | varnames (texts : List String)
  | freevars (texts : List String)
  | cellvars (texts : List String)
  | firstLine (n : UInt32)
  | lineTable (bytes : List UInt8)

/-- A unit after one change. Legacy units have no keyword-only parameters, so there a count of
them changes nothing. -/
def change (unit : CodeUnit) : Change → CodeUnit
  | .filename text => { unit with filename := text }
  | .argCount n => { unit with argCount := n }
  | .kwOnlyArgCount n =>
    match unit.era with
    | .modern => { unit with kwOnlyArgCount := n }
    | .legacy => unit
  | .localCount n => { unit with localCount := n }
  | .stackSize n => { unit with stackSize := n }
  | .flags bits => { unit with flags := bits }
  | .code bytes => { unit with code := bytes }
  | .consts values => { unit with consts := values }
  | .addConst value => { unit with consts := unit.consts ++ [value] }
  | .names texts => { unit with names := texts }
  | .varnames texts => { unit with varnames := texts }
  | .freevars texts => { unit with freevars := texts }
  | .cellvars texts => { unit with cellvars := texts }
  | .firstLine n => { unit with firstLine := n }
  | .lineTable bytes => { unit with lineTable := bytes }

/-- The unit that a sequence of changes makes of a blank one. -/
def build (era : Era) (name : String) (changes : List Change) : CodeUnit :=
  changes.foldl change (blank era name)

end CodeUnit

end PycListing
