import PycListing.Code.Change
import Mathlib.Data.List.DropRight
import Mathlib.Data.List.Basic

/-! # Changes concern one field each

A change leaves every field but its own as it is, and what it makes of its own one depends on
nothing else in the unit (`PycListing.CodeUnit.get_change`). So a field of a built unit can be told
from the changes that concern it (`PycListing.CodeUnit.get_build_filter`): it holds what was set
last, the pool also what was added since then, and a legacy unit never has a number of keyword-only
parameters. Sequences of changes that agree in each field build the same unit
(`PycListing.CodeUnit.build_determined`).
-/

namespace PycListing

namespace CodeUnit

/-! ## Fields -/

/-- The fields that changes concern. -/
inductive Field where
  | filename
  | argCount
  | kwOnlyArgCount
  | localCount
  | stackSize
  | flags
  | code
  | consts
  | names
  | varnames
  | freevars
  | cellvars
  | firstLine
  | lineTable
  deriving DecidableEq

namespace Field

/-- What a field holds. -/
abbrev Content : Field → Type
  | .filename => String
  | .argCount | .kwOnlyArgCount | .localCount | .stackSize | .flags | .firstLine => UInt32
  | .code | .lineTable => List UInt8
  | .consts => List Value
  | .names | .varnames | .freevars | .cellvars => List String

/-- What a field holds that was never set. -/
def empty : (field : Field) → field.Content
  | .filename => ""
  | .argCount | .kwOnlyArgCount | .localCount | .stackSize | .flags | .firstLine => (0 : UInt32)
  | .code | .lineTable => ([] : List UInt8)
  | .consts => ([] : List Value)
  | .names | .varnames | .freevars | .cellvars => ([] : List String)

end Field

/-- What a unit holds in a field. -/
def get (unit : CodeUnit) : (field : Field) → field.Content
  | .filename => unit.filename
  | .argCount => unit.argCount
  | .kwOnlyArgCount => unit.kwOnlyArgCount
  | .localCount => unit.localCount
  | .stackSize => unit.stackSize
  | .flags => unit.flags
  | .code => unit.code
  | .consts => unit.consts
  | .names => unit.names
  | .varnames => unit.varnames
  | .freevars => unit.freevars
  | .cellvars => unit.cellvars
  | .firstLine => unit.firstLine
  | .lineTable => unit.lineTable

theorem get_blank (era : Era) (name : String) (field : Field) :
    (blank era name).get field = field.empty := by
  cases field <;> rfl

/-- The fields that can be set, the era and the name determine a unit. -/
theorem eq_of_get {first second : CodeUnit} (era : first.era = second.era)
    (name : first.name = second.name) (same : ∀ field, first.get field = second.get field) :
    first = second := by
  cases first
  cases second
  simp only [CodeUnit.mk.injEq]
  exact ⟨era, same .argCount, same .kwOnlyArgCount, same .localCount, same .stackSize, same .flags,
    same .code, same .consts, same .names, same .varnames, same .freevars, same .cellvars,
    same .filename, name, same .firstLine, same .lineTable⟩

namespace Change

/-- The field that a change concerns. -/
def field : Change → Field
  | .filename _ => .filename
  | .argCount _ => .argCount
  | .kwOnlyArgCount _ => .kwOnlyArgCount
  | .localCount _ => .localCount
  | .stackSize _ => .stackSize
  | .flags _ => .flags
  | .code _ => .code
  | .consts _ => .consts
  | .addConst _ => .consts
  | .names _ => .names
  | .varnames _ => .varnames
  | .freevars _ => .freevars
  | .cellvars _ => .cellvars
  | .firstLine _ => .firstLine
  | .lineTable _ => .lineTable

/-- What a change sets a field of a unit of some era to. Adding a constant sets no field, and a
legacy unit has no number of keyword-only parameters to be set. -/
def setting? : Change → Era → (field : Field) → Option field.Content
  | .filename text, _, .filename => some text
  | .argCount n, _, .argCount => some n
  | .kwOnlyArgCount n, .modern, .kwOnlyArgCount => some n
  | .localCount n, _, .localCount => some n
  | .stackSize n, _, .stackSize => some n
  | .flags bits, _, .flags => some bits
  | .code bytes, _, .code => some bytes
  | .consts values, _, .consts => some values
  | .names texts, _, .names => some texts
  | .varnames texts, _, .varnames => some texts
  | .freevars texts, _, .freevars => some texts
  | .cellvars texts, _, .cellvars => some texts
  | .firstLine n, _, .firstLine => some n
  | .lineTable bytes, _, .lineTable => some bytes
  | _, _, _ => none

/-- The constant that a change adds to the pool. -/
def addition? : Change → Option Value
  | .addConst value => some value
  | _ => none

/-- What a change makes of what a field of a unit of some era holds. Only the pool is added to. -/
def effect (change : Change) (era : Era) : (field : Field) → field.Content → field.Content
  | .consts, held =>
    match change.addition? with
    | some value => held ++ [value]
    | none => (change.setting? era .consts).getD held
  | field, held => (change.setting? era field).getD held

variable {change : Change} {era : Era} {field : Field}

theorem field_of_setting? {content : field.Content}
    (set : change.setting? era field = some content) : change.field = field := by
  rw [setting?.eq_def] at set
  split at set
  case h_15 => cases set
  all_goals rfl

theorem setting?_of_ne (apart : change.field ≠ field) : change.setting? era field = none := by
  cases found : change.setting? era field with
  | none => rfl
  | some content => exact absurd (field_of_setting? found) apart

theorem addition?_of_ne (apart : change.field ≠ .consts) : change.addition? = none := by
  cases change with
  | addConst value => exact absurd rfl apart
  | _ => rfl

theorem addition?_of_setting? {values : List Value}
    (set : change.setting? era .consts = some values) : change.addition? = none := by
  cases change with
  | addConst value => cases set
  | _ => rfl

/-- A change of the pool sets it or adds to it, and never both. -/
theorem effect_consts (change : Change) (era : Era) (held : List Value) :
    change.effect era .consts held =
      (change.setting? era .consts).getD held ++ change.addition?.toList := by
  cases set : change.setting? era .consts with
  | none => cases added : change.addition? <;> simp [effect, added, set]
  | some values => simp [effect, addition?_of_setting? set, set]

theorem effect_of_ne_consts (single : field ≠ .consts) (held : field.Content) :
    change.effect era field held = (change.setting? era field).getD held := by
  cases field with
  | consts => exact absurd rfl single
  | _ => rfl

/-- A change leaves the fields alone that it does not concern. -/
theorem effect_of_ne (apart : change.field ≠ field) (held : field.Content) :
    change.effect era field held = held := by
  have unset : change.setting? era field = none := setting?_of_ne apart
  by_cases pool : field = .consts
  · subst pool
    rw [effect_consts, unset, addition?_of_ne apart]
    exact List.append_nil held
  · rw [effect_of_ne_consts pool, unset, Option.getD_none]

end Change

/-! ## Changes in a row -/

variable {era : Era} {name : String} {field : Field}

/-- What a change makes of a field depends on this field and the era alone. -/
theorem get_change (unit : CodeUnit) (change : Change) (field : Field) :
    (unit.change change).get field = change.effect unit.era field (unit.get field) := by
  cases change with
  | kwOnlyArgCount n =>
      -- The one change that looks at the era.
      cases unit with
      | mk era => cases era <;> cases field <;> rfl
  | _ => cases field <;> rfl

theorem era_name_change (unit : CodeUnit) (change : Change) :
    (unit.change change).era = unit.era ∧ (unit.change change).name = unit.name := by
  cases change with
  | kwOnlyArgCount n =>
      cases unit with
      | mk era => cases era <;> exact ⟨rfl, rfl⟩
  | _ => exact ⟨rfl, rfl⟩

theorem build_concat (era : Era) (name : String) (changes : List Change) (change : Change) :
    build era name (changes ++ [change]) = (build era name changes).change change :=
  List.foldl_concat ..

/-- No change touches the era and the name. -/
theorem era_name_build (era : Era) (name : String) (changes : List Change) :
    (build era name changes).era = era ∧ (build era name changes).name = name := by
  induction changes using List.reverseRecOn with
  | nil => exact ⟨rfl, rfl⟩
  | append_singleton changes change ih =>
      obtain ⟨sameEra, sameName⟩ := era_name_change (build era name changes) change
      rw [build_concat]
      exact ⟨sameEra.trans ih.1, sameName.trans ih.2⟩

theorem get_build_concat (era : Era) (name : String) (changes : List Change) (change : Change)
    (field : Field) :
    (build era name (changes ++ [change])).get field =
      change.effect era field ((build era name changes).get field) := by
  rw [build_concat, get_change, (era_name_build era name changes).1]

/-- A field of a built unit shows nothing of the changes that concern other fields. -/
theorem get_build_filter (era : Era) (name : String) (changes : List Change) (field : Field) :
    (build era name (changes.filter (·.field = field))).get field =
      (build era name changes).get field := by
  induction changes using List.reverseRecOn with
  | nil => rfl
  | append_singleton changes change ih =>
      rw [get_build_concat, List.filter_append]
      by_cases own : change.field = field
      · rw [List.filter_singleton, decide_eq_true own, cond_true, get_build_concat, ih]
      · -- The filter drops the change, and the field does not show it either.
        rw [Change.effect_of_ne own]
        simpa [own] using ih

/-- A field other than the pool holds what it was set to last. -/
theorem get_build (era : Era) (name : String) (changes : List Change) (single : field ≠ .consts) :
    (build era name changes).get field =
      (changes.filterMap (·.setting? era field)).getLast?.getD field.empty := by
  induction changes using List.reverseRecOn with
  | nil => exact get_blank era name field
  | append_singleton changes change ih =>
      rw [get_build_concat, Change.effect_of_ne_consts single, List.filterMap_append, ih]
      cases found : change.setting? era field with
      | none => simp [found]
      | some content => simp [found]

/-- The constants that are added behind the last change that sets the pool, all of them if none
does. -/
def addedSince (era : Era) (changes : List Change) : List Value :=
  (changes.rtakeWhile fun change => (change.setting? era .consts).isNone).filterMap
    Change.addition?

theorem addedSince_concat_of_set {changes : List Change} {change : Change} {values : List Value}
    (set : change.setting? era .consts = some values) :
    addedSince era (changes ++ [change]) = [] := by
  simp [addedSince, set]

theorem addedSince_concat_of_unset {changes : List Change} {change : Change}
    (unset : change.setting? era .consts = none) :
    addedSince era (changes ++ [change]) = addedSince era changes ++ change.addition?.toList := by
  cases added : change.addition? <;> simp [addedSince, unset, added]

/-- The pool holds what it was set to last, and behind it what was added since. -/
theorem consts_build (era : Era) (name : String) (changes : List Change) :
    (build era name changes).consts =
      (changes.filterMap (·.setting? era .consts)).getLast?.getD [] ++ addedSince era changes := by
  induction changes using List.reverseRecOn with
  | nil => rfl
  | append_singleton changes change ih =>
      have step := get_build_concat era name changes change .consts
      change _ = change.effect era .consts (build era name changes).consts at step
      change (build era name (changes ++ [change])).get .consts = _
      rw [step, Change.effect_consts, List.filterMap_append]
      cases set : change.setting? era .consts with
      | none => simp [addedSince_concat_of_unset set, set, ih]
      | some values =>
          simp [addedSince_concat_of_set set, Change.addition?_of_setting? set, set]

/-- Legacy units have no keyword-only parameters. -/
theorem kwOnlyArgCount_build (name : String) (changes : List Change) :
    (build .legacy name changes).kwOnlyArgCount = 0 := by
  have single : Field.kwOnlyArgCount ≠ .consts := nofun
  have unset : changes.filterMap (·.setting? .legacy .kwOnlyArgCount) = [] := by
    refine List.filterMap_eq_nil_iff.mpr fun change _ => ?_
    cases change <;> rfl
  have last := get_build .legacy name changes single
  rw [unset] at last
  exact last

/-- Sequences of changes that concern each field alike build the same unit. -/
theorem build_eq_of_filter_eq {first second : List Change}
    (same : ∀ field, first.filter (·.field = field) = second.filter (·.field = field)) :
    build era name first = build era name second := by
  obtain ⟨firstEra, firstName⟩ := era_name_build era name first
  obtain ⟨secondEra, secondName⟩ := era_name_build era name second
  refine eq_of_get (firstEra.trans secondEra.symm) (firstName.trans secondName.symm) fun field => ?_
  rw [← get_build_filter, same, get_build_filter]

/-! ## Nested units -/

/-- The nested units are the units among the constants, in the order of the pool. -/
theorem map_code_nested (unit : CodeUnit) :
    unit.nested.map Value.code = unit.consts.filter Value.isCode := by
  rw [nested]
  induction unit.consts with
  | nil => rfl
  | cons value rest ih =>
      cases value with
      | code found => exact congrArg (Value.code found :: ·) ih
      | _ => exact ih

/-! ## Built units -/

/-- A unit shows what its changes made of each field, and nothing else. -/
structure Determined (era : Era) (name : String) (changes : List Change) (unit : CodeUnit) :
    Prop where
  ofEra : unit.era = era
  named : unit.name = name
  setting : ∀ field, field ≠ .consts →
    unit.get field = (changes.filterMap (·.setting? era field)).getLast?.getD field.empty
  pool : unit.consts =
    (changes.filterMap (·.setting? era .consts)).getLast?.getD [] ++ addedSince era changes
  /-- A legacy unit counts no keyword-only parameters at any time. -/
  uncounted : era = .legacy → ∀ before, before <+: changes →
    (build era name before).kwOnlyArgCount = 0
  own : ∀ field,
    unit.get field = (build era name (changes.filter (·.field = field))).get field
  units : unit.nested.map Value.code = unit.consts.filter Value.isCode

/-- **Changes of different fields do not meet.** Each field of a built unit holds what it was set
to last, all bits of it, or is empty; the pool goes on with the constants that were added since;
and a legacy unit has no keyword-only parameters. So the order of changes counts within a field
only. -/
theorem build_determined (era : Era) (name : String) (changes : List Change) :
    Determined era name changes (build era name changes) ∧
      ∀ others : List Change,
        (∀ field, others.filter (·.field = field) = changes.filter (·.field = field)) →
          build era name others = build era name changes := by
  constructor
  · constructor
    case ofEra => exact (era_name_build era name changes).1
    case named => exact (era_name_build era name changes).2
    case setting => exact fun field => get_build era name changes
    case pool => exact consts_build era name changes
    case uncounted =>
      rintro rfl before _
      exact kwOnlyArgCount_build name before
    case own => exact fun field => (get_build_filter era name changes field).symm
    case units => exact map_code_nested _
  · exact fun others => build_eq_of_filter_eq

/-- Changes of the pool, of the flags and of a number that a legacy unit has no use for, in two
orders. The first constant is added before the pool is set. -/
theorem build_determined_shuffled :
    build .legacy "f" [.kwOnlyArgCount 2, .flags 1, .addConst .none, .consts [.ellipsis],
        .flags 0x80000040, .addConst (.bool true)] =
      build .legacy "f" [.addConst .none, .flags 1, .consts [.ellipsis], .addConst (.bool true),
        .flags 0x80000040, .kwOnlyArgCount 2] ∧
    build .legacy "f" [.addConst .none, .flags 1, .consts [.ellipsis], .addConst (.bool true),
        .flags 0x80000040, .kwOnlyArgCount 2] =
      { blank .legacy "f" with flags := 0x80000040, consts := [.ellipsis, .bool true] } := by
  constructor
  · refine (build_determined .legacy "f" _).2 _ fun field => ?_
    cases field <;> rfl
  · rfl

end CodeUnit

end PycListing
