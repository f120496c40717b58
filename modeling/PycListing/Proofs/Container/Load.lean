import PycListing.Container.Load
import PycListing.Proofs.LittleEndian
import Mathlib.Data.List.Pairwise

/-! # What a compiled file is

The bytes of a module are its header and a body whose first object is the module's root
(`PycListing.Container.Holds`). Any other byte string has a fault, the first one that applies in
the order of the format (`PycListing.Container.Faulty`). Loading finds exactly the module or
exactly the fault (`PycListing.Container.load_exact`).
-/

namespace PycListing.Container

/-! ## Producers -/

/-- Some row of the table gives a magic number to a version of an implementation. -/
def Writes (version : Version) (flavor : Flavor) (magic : UInt16) : Prop :=
  ∃ range ∈ magicRanges, range.first ≤ magic ∧ magic ≤ range.last ∧
    range.version = version ∧ range.flavor = flavor

theorem MagicRange.holds_iff {range : MagicRange} {magic : UInt16} :
    range.holds magic = true ↔ range.first ≤ magic ∧ magic ≤ range.last := by
  simp only [MagicRange.holds, Bool.and_eq_true, decide_eq_true_eq]

theorem pairwise_apart_magicRanges : magicRanges.Pairwise fun first second =>
    first.last < second.first ∨ second.last < first.first := by
  decide

/-- No two rows of the table have a magic number in common. -/
theorem eq_of_holds {first second : MagicRange} {magic : UInt16} (firstRow : first ∈ magicRanges)
    (secondRow : second ∈ magicRanges) (inFirst : first.holds magic = true)
    (inSecond : second.holds magic = true) : first = second := by
  by_contra differ
  have symmetric : Std.Symm fun first second : MagicRange =>
      first.last < second.first ∨ second.last < first.first := ⟨fun _ _ => Or.symm⟩
  have apart := pairwise_apart_magicRanges.forall firstRow secondRow differ
  simp only [MagicRange.holds_iff, UInt16.le_iff_toNat_le, UInt16.lt_iff_toNat_lt]
    at inFirst inSecond apart
  omega

/-- The order of the rows does not matter. -/
theorem producer?_eq_some_iff {magic : UInt16} {version : Version} {flavor : Flavor} :
    producer? magic = some (version, flavor) ↔ Writes version flavor magic := by
  rw [producer?, Option.map_eq_some_iff]
  constructor
  · rintro ⟨range, found, same⟩
    have holds : range.holds magic = true :=
      List.find?_some (p := fun range : MagicRange => range.holds magic) found
    obtain ⟨low, high⟩ := MagicRange.holds_iff.mp holds
    cases same
    exact ⟨range, List.mem_of_find?_eq_some found, low, high, rfl, rfl⟩
  · rintro ⟨range, row, low, high, rfl, rfl⟩
    have holds : range.holds magic = true := MagicRange.holds_iff.mpr ⟨low, high⟩
    cases found : magicRanges.find? (·.holds magic) with
    | none => exact absurd holds (List.find?_eq_none.mp found range row)
    | some other =>
        have otherHolds : other.holds magic = true :=
          List.find?_some (p := fun range : MagicRange => range.holds magic) found
        obtain rfl := eq_of_holds (List.mem_of_find?_eq_some found) row otherHolds holds
        exact ⟨other, rfl, rfl⟩

theorem producer?_eq_none_iff {magic : UInt16} :
    producer? magic = none ↔ ∀ version flavor, ¬Writes version flavor magic := by
  simp only [← producer?_eq_some_iff, Option.eq_none_iff_forall_ne_some, Prod.forall]

/-! ## Headers -/

/-- What every header starts with: magic number, line break and time. -/
def front (magic : UInt16) (timestamp : UInt32) : List UInt8 :=
  littleEndianBytes 2 magic.toNat ++ ([0x0d, 0x0a] ++ littleEndianBytes 4 timestamp.toNat)

def sizeBytes : Option UInt32 → List UInt8
  | some size => littleEndianBytes 4 size.toNat
  | none => []

/-- **The format of a file.** It is the header of a module, with the size of the source from
version 3.3 on, and a body that the marshal reader of the version takes the root from. -/
structure Holds (data : List UInt8) (compiled : CompiledModule) : Prop where
  producer : Writes compiled.version compiled.flavor compiled.magic
  sized : compiled.sourceSize.isSome = compiled.version.atLeast 3 3
  content : ∃ body,
    data = front compiled.magic compiled.timestamp ++ (sizeBytes compiled.sourceSize ++ body) ∧
      Marshal.readFirst compiled.version body = .ok compiled.root

/-- **The faults of a file**, each of them where those before it do not apply. -/
inductive Faulty : List UInt8 → LoadError → Prop where
  | tooShort {data : List UInt8} (short : data.length < 8) : Faulty data (.badHeader .tooShort)
  | noLineBreak {data : List UInt8} (long : 8 ≤ data.length)
      (other : (data.drop 2).take 2 ≠ [0x0d, 0x0a]) : Faulty data (.badHeader .noLineBreak)
  | unknownMagic {magic : UInt16} {timestamp : UInt32} {rest : List UInt8}
      (unknown : ∀ version flavor, ¬Writes version flavor magic) :
      Faulty (front magic timestamp ++ rest) (.unknownMagic magic)
  | noSourceSize {magic : UInt16} {timestamp : UInt32} {rest : List UInt8} {version : Version}
      {flavor : Flavor} (producer : Writes version flavor magic)
      (sized : version.atLeast 3 3 = true) (short : rest.length < 4) :
      Faulty (front magic timestamp ++ rest) (.badHeader .noSourceSize)
  | badStream {magic : UInt16} {timestamp : UInt32} {sourceSize : Option UInt32}
      {body : List UInt8} {version : Version} {flavor : Flavor} {error : Marshal.Error}
      (producer : Writes version flavor magic)
      (sized : sourceSize.isSome = version.atLeast 3 3)
      (failed : Marshal.readFirst version body = .error error) :
      Faulty (front magic timestamp ++ (sizeBytes sourceSize ++ body)) (.badStream error)

/-! ## Fields -/

section Fields

variable (magic : UInt16) (timestamp : UInt32) (rest : List UInt8)

theorem field_magic : (field (front magic timestamp ++ rest) 0 2).toUInt16 = magic := by
  change (littleEndian (littleEndianBytes 2 magic.toNat)).toUInt16 = magic
  rw [littleEndian_littleEndianBytes magic.toNat_lt]
  exact UInt16.ofNat_toNat

theorem field_timestamp : (field (front magic timestamp ++ rest) 4 4).toUInt32 = timestamp := by
  change (littleEndian (littleEndianBytes 4 timestamp.toNat)).toUInt32 = timestamp
  rw [littleEndian_littleEndianBytes timestamp.toNat_lt]
  exact UInt32.ofNat_toNat

theorem field_sourceSize (size : UInt32) :
    (field (front magic timestamp ++ (littleEndianBytes 4 size.toNat ++ rest)) 8 4).toUInt32 =
      size := by
  change (littleEndian (littleEndianBytes 4 size.toNat)).toUInt32 = size
  rw [littleEndian_littleEndianBytes size.toNat_lt]
  exact UInt32.ofNat_toNat

end Fields

theorem exists_littleEndianBytes_append {width : Nat} {bytes : List UInt8}
    (enough : width ≤ bytes.length) :
    ∃ number, number < 256 ^ width ∧ bytes = littleEndianBytes width number ++ bytes.drop width := by
  have full : (bytes.take width).length = width := List.length_take_of_le enough
  refine ⟨littleEndian (bytes.take width), ?_, ?_⟩
  · have small := littleEndian_lt (bytes.take width)
    rwa [full] at small
  · have same := littleEndianBytes_littleEndian (bytes.take width)
    rw [full] at same
    rw [same, List.take_append_drop]

/-- Eight bytes with the line break at its place are the front of a header. -/
theorem exists_front_append {data : List UInt8} (long : 8 ≤ data.length)
    (broken : (data.drop 2).take 2 = [0x0d, 0x0a]) :
    ∃ magic timestamp rest, data = front magic timestamp ++ rest := by
  obtain ⟨magic, magicFits, start⟩ := exists_littleEndianBytes_append (by omega : 2 ≤ data.length)
  have more : 4 ≤ (data.drop 4).length := by
    rw [List.length_drop]
    omega
  obtain ⟨timestamp, timestampFits, time⟩ := exists_littleEndianBytes_append more
  have middle : data.drop 2 = [0x0d, 0x0a] ++ data.drop 4 := by
    conv_lhs => rw [← List.take_append_drop 2 (data.drop 2), broken, List.drop_drop]
  refine ⟨.ofNat magic, .ofNat timestamp, data.drop 8, ?_⟩
  rw [front, UInt16.toNat_ofNat_of_lt' magicFits, UInt32.toNat_ofNat_of_lt' timestampFits,
    List.append_assoc, List.append_assoc]
  rw [List.drop_drop] at time
  rw [← time, ← middle, ← start]

theorem exists_sizeBytes_append {version : Version} {rest : List UInt8}
    (complete : version.atLeast 3 3 = true → 4 ≤ rest.length) :
    ∃ sourceSize body, sourceSize.isSome = version.atLeast 3 3 ∧
      rest = sizeBytes sourceSize ++ body := by
  cases sized : version.atLeast 3 3 with
  | false => exact ⟨none, rest, rfl, rfl⟩
  | true =>
      obtain ⟨size, fits, same⟩ := exists_littleEndianBytes_append (complete sized)
      refine ⟨some (.ofNat size), rest.drop 4, rfl, ?_⟩
      rw [sizeBytes, UInt32.toNat_ofNat_of_lt' fits]
      exact same

/-! ## Loading -/

theorem afterTimestamp_of_sized {version : Version} {magic : UInt16} {timestamp : UInt32}
    {sourceSize : Option UInt32} (sized : sourceSize.isSome = version.atLeast 3 3)
    (body : List UInt8) :
    afterTimestamp version (front magic timestamp ++ (sizeBytes sourceSize ++ body)) =
      .ok (sourceSize, body) := by
  rw [afterTimestamp, Version.hasSourceSize, ← sized]
  cases sourceSize with
  | none => rfl
  | some size =>
      have long : ¬(front magic timestamp ++ (sizeBytes (some size) ++ body)).length < 12 := by
        simp only [List.length_append, front, sizeBytes, length_littleEndianBytes,
          List.length_cons, List.length_nil]
        omega
      rw [Option.isSome_some, if_pos rfl, if_neg long]
      rw [sizeBytes, field_sourceSize]
      rfl

theorem not_short_front_append (magic : UInt16) (timestamp : UInt32) (rest : List UInt8) :
    ¬(front magic timestamp ++ rest).length < 8 := by
  simp only [List.length_append, front, length_littleEndianBytes, List.length_cons,
    List.length_nil]
  omega

theorem lineBreak_front_append (magic : UInt16) (timestamp : UInt32) (rest : List UInt8) :
    ¬((front magic timestamp ++ rest).drop 2).take 2 ≠ lineBreak :=
  not_not.mpr rfl

theorem load_of_holds {data : List UInt8} {compiled : CompiledModule}
    (holds : Holds data compiled) : load data = .ok compiled := by
  obtain ⟨producer, sized, body, rfl, root⟩ := holds
  have known := producer?_eq_some_iff.mpr producer
  simp only [load, if_neg (not_short_front_append _ _ _), if_neg (lineBreak_front_append _ _ _),
    field_magic, field_timestamp, known, afterTimestamp_of_sized sized, root]

theorem load_of_faulty {data : List UInt8} {error : LoadError} (faulty : Faulty data error) :
    load data = .error error := by
  cases faulty with
  | tooShort short => rw [load, if_pos short]
  | noLineBreak long other =>
      have unbroken : (data.drop 2).take 2 ≠ lineBreak := other
      rw [load, if_neg (Nat.not_lt.mpr long), if_pos unbroken]
  | unknownMagic unknown =>
      simp only [load, if_neg (not_short_front_append _ _ _),
        if_neg (lineBreak_front_append _ _ _), field_magic, producer?_eq_none_iff.mpr unknown]
  | @noSourceSize magic timestamp rest version flavor producer sized short =>
      have missing : (front magic timestamp ++ rest).length < 12 := by
        simp only [List.length_append, front, length_littleEndianBytes, List.length_cons,
          List.length_nil]
        omega
      have ends : afterTimestamp version (front magic timestamp ++ rest) =
          .error (.badHeader .noSourceSize) := by
        rw [afterTimestamp, Version.hasSourceSize, if_pos sized, if_pos missing]
      simp only [load, if_neg (not_short_front_append _ _ _),
        if_neg (lineBreak_front_append _ _ _), field_magic, producer?_eq_some_iff.mpr producer,
        ends]
  | badStream producer sized failed =>
      simp only [load, if_neg (not_short_front_append _ _ _),
        if_neg (lineBreak_front_append _ _ _), field_magic, producer?_eq_some_iff.mpr producer,
        afterTimestamp_of_sized sized, failed]

/-- Every byte string is the file of a module or has a fault. -/
theorem holds_or_faulty (data : List UInt8) :
    (∃ compiled, Holds data compiled) ∨ ∃ error, Faulty data error := by
  by_cases short : data.length < 8
  · exact .inr ⟨_, .tooShort short⟩
  have long : 8 ≤ data.length := Nat.le_of_not_lt short
  by_cases broken : (data.drop 2).take 2 = [0x0d, 0x0a]
  swap
  · exact .inr ⟨_, .noLineBreak long broken⟩
  obtain ⟨magic, timestamp, rest, rfl⟩ := exists_front_append long broken
  by_cases known : ∃ version flavor, Writes version flavor magic
  swap
  · exact .inr ⟨_, .unknownMagic fun version flavor writes => known ⟨version, flavor, writes⟩⟩
  obtain ⟨version, flavor, producer⟩ := known
  by_cases complete : version.atLeast 3 3 = true → 4 ≤ rest.length
  swap
  · obtain ⟨sized, missing⟩ := Classical.not_imp.mp complete
    exact .inr ⟨_, .noSourceSize producer sized (Nat.lt_of_not_le missing)⟩
  obtain ⟨sourceSize, body, sized, rfl⟩ := exists_sizeBytes_append complete
  cases read : Marshal.readFirst version body with
  | error error => exact .inr ⟨_, .badStream producer sized read⟩
  | ok root =>
      exact .inl ⟨⟨version, flavor, magic, timestamp, sourceSize, root⟩, producer, sized, body,
        rfl, read⟩

/-- **Loading is exact.** -/
theorem load_exact (data : List UInt8) :
    (∀ compiled, load data = .ok compiled ↔ Holds data compiled) ∧
      ∀ error, load data = .error error ↔ Faulty data error := by
  constructor
  · refine fun compiled => ⟨fun loaded => ?_, load_of_holds⟩
    rcases holds_or_faulty data with ⟨other, holds⟩ | ⟨error, faulty⟩
    · rw [load_of_holds holds, Except.ok.injEq] at loaded
      exact loaded ▸ holds
    · rw [load_of_faulty faulty] at loaded
      cases loaded
  · refine fun error => ⟨fun failed => ?_, load_of_faulty⟩
    rcases holds_or_faulty data with ⟨compiled, holds⟩ | ⟨other, faulty⟩
    · rw [load_of_holds holds] at failed
      cases failed
    · rw [load_of_faulty faulty, Except.error.injEq] at failed
      exact failed ▸ faulty

end PycListing.Container
