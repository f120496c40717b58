import PycListing.Proofs.Text.Numeral
import PycListing.Proofs.Text.Words
import PycListing.Version
import Mathlib.Algebra.Group.Nat.Defs

/-! # Version texts

The texts that spell a version are said here without the reader: blanks around components that
dots separate, of which the first two are numerals of a byte each and the third one, if there is
any, is a numeral of 32 bits (`PycListing.Version.Spelled`). Reading accepts exactly those, refuses
every other text as it was given, and gives back each version that is written out
(`PycListing.Version.parse_exact`).
-/

namespace PycListing

namespace Text

variable {text core : List Char} {limit value : Nat}

/-! ## Trimmed texts -/

/-- What is left of a text without the blanks at its ends. -/
structure Trims (text core : List Char) : Prop where
  around : ∃ before after, text = before ++ core ++ after ∧
    (∀ c ∈ before, isBlank c = true) ∧ ∀ c ∈ after, isBlank c = true
  first : ∀ c ∈ core.head?, isBlank c = false
  last : ∀ c ∈ core.getLast?, isBlank c = false

theorem trims_trimChars (text : List Char) : Trims text (trimChars text) where
  around := by
    refine ⟨text.takeWhile isBlank, (text.dropWhile isBlank).rtakeWhile isBlank, ?_,
      fun c => List.mem_takeWhile_imp, fun c => List.mem_rtakeWhile_imp⟩
    change text = _ ++ (text.dropWhile isBlank).rdropWhile isBlank ++ _
    rw [List.append_assoc, List.rdropWhile_append_rtakeWhile, List.takeWhile_append_dropWhile]
  first := by
    intro c isFirst
    obtain ⟨blanks, whole⟩ : trimChars text <+: text.dropWhile isBlank :=
      List.rdropWhile_prefix isBlank _
    have stops := List.head?_dropWhile_not isBlank text
    rw [← whole, List.head?_append, isFirst] at stops
    exact stops
  last := by
    intro c isLast
    obtain ⟨some, rfl⟩ := List.mem_getLast?_eq_getLast isLast
    exact Bool.eq_false_iff.mpr (List.rdropWhile_last_not isBlank _ some)

theorem Trims.trimChars_eq (trims : Trims text core) : trimChars text = core := by
  obtain ⟨⟨before, after, rfl, blankBefore, blankAfter⟩, first, last⟩ := trims
  rw [trimChars, List.append_assoc, List.dropWhile_append_of_pos blankBefore]
  cases core with
  | nil =>
      rw [List.nil_append, List.dropWhile_eq_nil_iff.mpr blankAfter]
      rfl
  | cons c rest =>
      have solid : ¬isBlank c = true := Bool.eq_false_iff.mp (first c rfl)
      rw [List.cons_append, List.dropWhile_cons_of_neg solid, ← List.cons_append,
        trimEndChars_append_blanks _ blankAfter]
      apply List.rdropWhile_eq_self_iff.mpr
      intro some
      exact Bool.eq_false_iff.mp (last _ (List.getLast?_eq_getLast_of_ne_nil some))

/-- A text without blanks is trimmed. -/
theorem Trims.itself (solid : ∀ c ∈ text, isBlank c = false) : Trims text text where
  around := ⟨[], [], (List.append_nil _).symm, List.forall_mem_nil _, List.forall_mem_nil _⟩
  first := fun c isFirst => solid c (List.mem_of_mem_head? isFirst)
  last := fun c isLast => solid c (List.mem_of_mem_getLast? isLast)

/-! ## Numerals -/

/-- A numeral and its value: ASCII digits, the most significant one first, with or without a plus
sign before them. -/
inductive Denotes : List Char → Nat → Prop where
  | plain {digits : List Char} (some : digits ≠ []) (ascii : ∀ c ∈ digits, c.isDigit = true) :
      Denotes digits (Nat.ofDigitChars 10 digits 0)
  | signed {digits : List Char} (some : digits ≠ []) (ascii : ∀ c ∈ digits, c.isDigit = true) :
      Denotes ('+' :: digits) (Nat.ofDigitChars 10 digits 0)

theorem digitsValue_eq (value : Nat) (digits : List Char) :
    digitsValue value digits = Nat.ofDigitChars 10 digits value := by
  fun_induction digitsValue value digits with
  | case1 => rfl
  | case2 value c rest ih => rw [ih, Nat.ofDigitChars_cons]

theorem plainNumeral?_eq_some_iff {digits : List Char} :
    plainNumeral? limit digits = some value ↔
      digits ≠ [] ∧ (∀ c ∈ digits, c.isDigit = true) ∧ Nat.ofDigitChars 10 digits 0 = value ∧
        value ≤ limit := by
  simp only [plainNumeral?, digitsValue_eq, Option.ite_none_right_eq_some, Bool.and_eq_true,
    Bool.not_eq_true', List.isEmpty_eq_false_iff, List.all_eq_true, decide_eq_true_eq,
    Option.some.injEq]
  constructor
  · rintro ⟨⟨⟨some, ascii⟩, fits⟩, rfl⟩
    exact ⟨some, ascii, rfl, fits⟩
  · rintro ⟨some, ascii, rfl, fits⟩
    exact ⟨⟨⟨some, ascii⟩, fits⟩, rfl⟩

/-- Reading a numeral finds its value, unless that is above the limit. -/
theorem numeral?_eq_some_iff :
    numeral? limit text = some value ↔ Denotes text value ∧ value ≤ limit := by
  unfold numeral?
  split
  · rename_i digits
    rw [plainNumeral?_eq_some_iff]
    constructor
    · rintro ⟨some, ascii, rfl, fits⟩
      exact ⟨.signed some ascii, fits⟩
    · rintro ⟨denotes, fits⟩
      cases denotes with
      | plain _ ascii => cases ascii '+' List.mem_cons_self
      | signed some ascii => exact ⟨some, ascii, rfl, fits⟩
  · rename_i unsigned
    rw [plainNumeral?_eq_some_iff]
    constructor
    · rintro ⟨some, ascii, rfl, fits⟩
      exact ⟨.plain some ascii, fits⟩
    · rintro ⟨denotes, fits⟩
      cases denotes with
      | plain some ascii => exact ⟨some, ascii, rfl, fits⟩
      | signed => exact absurd rfl (unsigned _)

theorem denotes_toString (n : Nat) : Denotes (toString n).toList n := by
  have value := Nat.ofDigitChars_ten_toDigits (n := n)
  rw [toList_toString_nat]
  conv => rhs; rw [← value]
  apply Denotes.plain Nat.toDigits_ne_nil
  exact fun _ member => Nat.isDigit_of_mem_toDigits (by decide) (by decide) member

theorem Denotes.mem (denotes : Denotes text value) {c : Char} (member : c ∈ text) :
    c = '+' ∨ c.isDigit = true := by
  cases denotes with
  | plain _ ascii => exact .inr (ascii c member)
  | signed _ ascii => exact (List.mem_cons.mp member).imp_right (ascii c)

theorem Denotes.isBlank_eq_false (denotes : Denotes text value) {c : Char} (member : c ∈ text) :
    isBlank c = false := by
  rcases denotes.mem member with rfl | digit
  · rfl
  · exact isBlank_eq_false_of_isDigit digit

theorem Denotes.dot_not_mem (denotes : Denotes text value) : '.' ∉ text := by
  intro member
  rcases denotes.mem member with same | digit
  · cases same
  · cases digit

/-! ## Components -/

/-- A text is split into pieces if and only if it joins them and none of them holds a separator. -/
theorem splitOn_eq_iff {separator : Char} {pieces : List (List Char)} :
    text.splitOn separator = pieces ↔
      pieces ≠ [] ∧ text = [separator].intercalate pieces ∧
        ∀ piece ∈ pieces, separator ∉ piece := by
  constructor
  · rintro rfl
    exact ⟨List.splitOn_ne_nil _ _, (List.intercalate_splitOn _).symm,
      fun _ => not_mem_of_mem_splitOn⟩
  · rintro ⟨some, rfl, apart⟩
    exact List.splitOn_intercalate _ apart some

end Text

namespace Version

open Text

variable {version : Version} {components : List (List Char)}

/-- Components that name a version. -/
inductive NamedBy (version : Version) : List (List Char) → Prop where
  | short {major minor : List Char} (first : Denotes major version.major.toNat)
      (second : Denotes minor version.minor.toNat) : NamedBy version [major, minor]
  /-- What follows the third component is free. -/
  | long {major minor micro : List Char} {number : Nat} {more : List (List Char)}
      (first : Denotes major version.major.toNat) (second : Denotes minor version.minor.toNat)
      (third : Denotes micro number) (fits : number < 2 ^ 32) :
      NamedBy version (major :: minor :: micro :: more)

/-- The texts that spell a version. -/
def Spelled (version : Version) (given : List Char) : Prop :=
  ∃ core components, Trims given core ∧ core = ['.'].intercalate components ∧
    (∀ component ∈ components, '.' ∉ component) ∧ version.NamedBy components

theorem NamedBy.ne_nil (named : version.NamedBy components) : components ≠ [] := by
  cases named <;> exact List.cons_ne_nil _ _

/-- A byte is read from the numerals that denote it. -/
theorem numeral?_byte {text : List Char} {byte : UInt8} :
    (numeral? 255 text).map Nat.toUInt8 = some byte ↔ Denotes text byte.toNat := by
  rw [Option.map_eq_some_iff]
  constructor
  · rintro ⟨value, read, rfl⟩
    obtain ⟨denotes, fits⟩ := numeral?_eq_some_iff.mp read
    have same : value.toUInt8.toNat = value := UInt8.toNat_ofNat_of_lt' (Nat.lt_succ_of_le fits)
    rwa [same]
  · intro denotes
    exact ⟨byte.toNat, numeral?_eq_some_iff.mpr ⟨denotes, Nat.le_of_lt_succ byte.toNat_lt⟩,
      UInt8.ofNat_toNat⟩

theorem ofComponents?_eq_some_iff :
    ofComponents? components = some version ↔ version.NamedBy components := by
  constructor
  · intro read
    unfold ofComponents? at read
    split at read
    · rename_i major minor more
      split at read
      · rename_i first second readFirst readSecond
        have isMajor := numeral?_byte.mp (Option.map_eq_some_iff.mpr ⟨first, readFirst, rfl⟩)
        have isMinor := numeral?_byte.mp (Option.map_eq_some_iff.mpr ⟨second, readSecond, rfl⟩)
        split at read
        · cases read
          exact .short isMajor isMinor
        · rename_i micro later
          obtain ⟨number, readThird, rfl⟩ := Option.map_eq_some_iff.mp read
          obtain ⟨isMicro, fits⟩ := numeral?_eq_some_iff.mp readThird
          exact .long isMajor isMinor isMicro (Nat.lt_of_le_pred (by decide) fits)
      · cases read
    · cases read
  · intro named
    cases named with
    | short first second =>
        obtain ⟨major, readMajor, isMajor⟩ := Option.map_eq_some_iff.mp (numeral?_byte.mpr first)
        obtain ⟨minor, readMinor, isMinor⟩ := Option.map_eq_some_iff.mp (numeral?_byte.mpr second)
        simp only [ofComponents?, readMajor, readMinor, isMajor, isMinor]
    | long first second third fits =>
        obtain ⟨major, readMajor, isMajor⟩ := Option.map_eq_some_iff.mp (numeral?_byte.mpr first)
        obtain ⟨minor, readMinor, isMinor⟩ := Option.map_eq_some_iff.mp (numeral?_byte.mpr second)
        have readMicro := numeral?_eq_some_iff.mpr ⟨third, Nat.le_pred_of_lt fits⟩
        simp only [ofComponents?, readMajor, readMinor, isMajor, isMinor]
        exact Option.map_eq_some_iff.mpr ⟨_, readMicro, rfl⟩

/-- A version is read from the texts that spell it. -/
theorem parse_eq_ok_iff {given : String} :
    parse given = .ok version ↔ version.Spelled given.toList := by
  have splits : parse given = .ok version ↔
      ofComponents? ((trimChars given.toList).splitOn '.') = some version := by
    unfold parse
    split
    · rename_i found read
      rw [read, Except.ok.injEq, Option.some.injEq]
    · rename_i none
      rw [none]
      exact iff_of_false nofun nofun
  rw [splits, ofComponents?_eq_some_iff]
  constructor
  · intro named
    obtain ⟨_, joined, apart⟩ := splitOn_eq_iff.mp (Eq.refl ((trimChars given.toList).splitOn '.'))
    exact ⟨_, _, trims_trimChars _, joined, apart, named⟩
  · rintro ⟨core, components, trims, joined, apart, named⟩
    rw [trims.trimChars_eq, splitOn_eq_iff.mpr ⟨named.ne_nil, joined, apart⟩]
    exact named

theorem parse_eq_error_iff {given : String} :
    parse given = .error ⟨given⟩ ↔ ∀ version : Version, ¬version.Spelled given.toList := by
  constructor
  · intro failed version spelled
    rw [parse_eq_ok_iff.mpr spelled] at failed
    cases failed
  · intro none
    cases read : parse given with
    | ok version => exact absurd (parse_eq_ok_iff.mp read) (none version)
    | error error =>
        unfold parse at read
        split at read
        · cases read
        · exact read.symm

/-! ## Versions written out -/

/-- Numerals joined by dots spell what they name: they hold neither a blank nor a dot. -/
theorem NamedBy.spelled (named : version.NamedBy components)
    (numerals : ∀ component ∈ components, ∃ value, Denotes component value) :
    version.Spelled (['.'].intercalate components) := by
  have solid : ∀ c ∈ ['.'].intercalate components, isBlank c = false := by
    have dot : ∀ c ∈ ['.'], isBlank c = false := List.forall_mem_singleton.mpr rfl
    apply (forall_mem_intercalate dot).mpr
    intro component member c among
    obtain ⟨value, denotes⟩ := numerals component member
    exact denotes.isBlank_eq_false among
  refine ⟨_, components, .itself solid, rfl, ?_, named⟩
  intro component member
  obtain ⟨value, denotes⟩ := numerals component member
  exact denotes.dot_not_mem

theorem toList_text (version : Version) :
    version.text.toList = ['.'].intercalate
      [(toString version.major.toNat).toList, (toString version.minor.toNat).toList] := by
  rw [text, String.toList_append, String.toList_append, List.intercalate_cons_cons,
    List.intercalate_singleton]
  rfl

/-- A version is read from its own text. -/
theorem parse_text (version : Version) : parse version.text = .ok version := by
  have first := denotes_toString version.major.toNat
  have second := denotes_toString version.minor.toNat
  apply parse_eq_ok_iff.mpr
  rw [toList_text]
  apply (NamedBy.short first second).spelled
  exact List.forall_mem_cons.mpr ⟨⟨_, first⟩, List.forall_mem_singleton.mpr ⟨_, second⟩⟩

/-- A third numeral behind the text of a version does not matter. -/
theorem parse_text_append {micro : List Char} {number : Nat} (version : Version)
    (third : Denotes micro number) (fits : number < 2 ^ 32) :
    parse (version.text ++ "." ++ String.ofList micro) = .ok version := by
  have first := denotes_toString version.major.toNat
  have second := denotes_toString version.minor.toNat
  have joined : (version.text ++ "." ++ String.ofList micro).toList = ['.'].intercalate
      [(toString version.major.toNat).toList, (toString version.minor.toNat).toList, micro] := by
    rw [String.toList_append, String.toList_append, String.toList_ofList, toList_text]
    simp [List.intercalate_cons_cons]
  apply parse_eq_ok_iff.mpr
  rw [joined]
  apply (NamedBy.long first second third fits).spelled
  refine List.forall_mem_cons.mpr ⟨⟨_, first⟩, ?_⟩
  exact List.forall_mem_cons.mpr ⟨⟨_, second⟩, List.forall_mem_singleton.mpr ⟨_, third⟩⟩

/-- **Versions are read from the texts that spell them.** Every other text is refused as it was
given. The text of a version, alone or with a third number behind it, gives the version back. -/
theorem parse_exact :
    (∀ (given : String) (version : Version),
      parse given = .ok version ↔ version.Spelled given.toList) ∧
    (∀ given : String,
      parse given = .error ⟨given⟩ ↔ ∀ version : Version, ¬version.Spelled given.toList) ∧
    ∀ version : Version, parse version.text = .ok version ∧
      (∀ number < 2 ^ 32, parse (version.text ++ "." ++ toString number) = .ok version) ∧
      ∀ micro number, Denotes micro number → number < 2 ^ 32 →
        parse (version.text ++ "." ++ String.ofList micro) = .ok version := by
  refine ⟨fun _ _ => parse_eq_ok_iff, fun _ => parse_eq_error_iff, fun version => ?_⟩
  refine ⟨parse_text version, ?_, fun _ _ => parse_text_append version⟩
  intro number fits
  have read := parse_text_append version (denotes_toString number) fits
  rwa [String.ofList_toList] at read

/-- Blanks that are not ASCII, a plus sign, zeros in front, the largest third number and components
behind it, of which one is empty. -/
theorem parse_exact_padded :
    Spelled ⟨2, 7⟩ "\u2003+02.007.4294967295..x\n".toList ∧
      parse "\u2003+02.007.4294967295..x\n" = .ok ⟨2, 7⟩ ∧
      Denotes ['+', '0', '4'] 4 ∧ parse "3.6.+04" = .ok ⟨3, 6⟩ := by
  have signed : Denotes ['+', '0', '2'] 2 := .signed (by simp) (by simp)
  have zeros : Denotes ['0', '0', '7'] 7 := .plain (by simp) (by simp)
  have large : Denotes "4294967295".toList 4294967295 := denotes_toString 4294967295
  have spelled : Spelled ⟨2, 7⟩ "\u2003+02.007.4294967295..x\n".toList := by
    refine ⟨"+02.007.4294967295..x".toList,
      [['+', '0', '2'], ['0', '0', '7'], "4294967295".toList, [], ['x']], ?_, rfl, ?_,
      .long signed zeros large (Nat.lt_succ_self _)⟩
    · refine ⟨⟨['\u2003'], ['\n'], rfl, List.forall_mem_singleton.mpr rfl,
        List.forall_mem_singleton.mpr rfl⟩, ?_, ?_⟩
      · rintro _ ⟨⟩
        rfl
      · rintro _ ⟨⟩
        rfl
    · simp only [List.forall_mem_cons]
      decide +kernel
  have micro : Denotes ['+', '0', '4'] 4 := .signed (by simp) (by simp)
  exact ⟨spelled, (parse_exact.1 _ _).mpr spelled, micro,
    (parse_exact.2.2 ⟨3, 6⟩).2.2 _ _ micro (by decide)⟩

end Version

end PycListing
