import PycListing.Code.Metadata
import PycListing.Proofs.Text.Hexadecimal
import Mathlib.Data.Nat.Bitwise

/-! # Flags read back

A flags text is read back by the tables of its era: each name to its bit, and each number to itself
(`PycListing.Era.entryNumber?_flagText`). The list holds every set bit once, in increasing order, so
it denotes the same number as the hexadecimal word in front of it (`PycListing.flagsText_faithful`).
-/

namespace PycListing

/-! ## Bits -/

/-- The set bits of a number below a width, as numbers. -/
def bitsBelow (n width : Nat) : List Nat :=
  ((List.range width).filter (n.testBit ·)).map (2 ^ ·)

theorem bitsBelow_succ (n width : Nat) :
    bitsBelow n (width + 1) = bitsBelow n width ++ if n.testBit width then [2 ^ width] else [] := by
  rw [bitsBelow, List.range_succ, List.filter_append, List.map_append, bitsBelow]
  cases set : n.testBit width with
  | true => simp only [List.filter_cons, set, if_true, List.filter_nil, List.map_cons, List.map_nil]
  | false =>
      simp only [List.filter_cons, set, Bool.false_eq_true, if_false, List.filter_nil, List.map_nil]

/-- The set bits below a width add up to what the number is up to there. -/
theorem sum_bitsBelow (n width : Nat) : (bitsBelow n width).sum = n % 2 ^ width := by
  induction width with
  | zero => rw [Nat.pow_zero, Nat.mod_one]; rfl
  | succ width ih =>
      rw [bitsBelow_succ, List.sum_append, ih, Nat.mod_pow_succ, ← Nat.toNat_testBit]
      cases n.testBit width with
      | true => rw [if_pos rfl, List.sum_singleton, Bool.toNat_true, Nat.mul_one]
      | false => rw [if_neg Bool.false_ne_true, List.sum_nil, Bool.toNat_false, Nat.mul_zero]

theorem pairwise_bitsBelow (n width : Nat) : (bitsBelow n width).Pairwise (· < ·) := by
  have places : ((List.range width).filter (n.testBit ·)).Pairwise (· < ·) :=
    List.pairwise_lt_range.filter _
  exact places.map _ fun _ _ before => Nat.pow_lt_pow_right (by decide) before

theorem mem_bitsBelow_iff {n width number : Nat} :
    number ∈ bitsBelow n width ↔ ∃ place < width, n.testBit place = true ∧ number = 2 ^ place := by
  simp only [bitsBelow, List.mem_map, List.mem_filter, List.mem_range, and_assoc, eq_comm]

theorem toNat_one_shiftLeft {place : Nat} (inside : place < 32) :
    ((1 : UInt32) <<< place.toUInt32).toNat = 2 ^ place := by
  have all : ∀ place : Fin 32, ((1 : UInt32) <<< place.val.toUInt32).toNat = 2 ^ place.val := by
    decide
  exact all ⟨place, inside⟩

theorem and_bit_eq_zero_iff (word : UInt32) {place : Nat} (inside : place < 32) :
    word &&& (1 : UInt32) <<< place.toUInt32 = 0 ↔ word.toNat.testBit place = false := by
  rw [← UInt32.toNat_inj, UInt32.toNat_and, toNat_one_shiftLeft inside, Nat.and_two_pow,
    UInt32.toNat_zero]
  cases word.toNat.testBit place with
  | true =>
      refine iff_of_false ?_ fun same => Bool.false_ne_true same.symm
      rw [Bool.toNat_true, Nat.one_mul]
      exact Nat.ne_of_gt (Nat.two_pow_pos place)
  | false => exact iff_of_true (Nat.zero_mul _) rfl

/-- The set bits of a word are those of its number. -/
theorem map_toNat_setBits (word : UInt32) :
    (setBits word).map UInt32.toNat = bitsBelow word.toNat 32 := by
  have places (chosen : List Nat) (inside : ∀ place ∈ chosen, place < 32) :
      (chosen.filterMap fun place =>
        if word &&& (1 : UInt32) <<< place.toUInt32 = 0 then none
        else some ((1 : UInt32) <<< place.toUInt32)).map UInt32.toNat =
        (chosen.filter (word.toNat.testBit ·)).map (2 ^ ·) := by
    -- For any places: the ones that are left of a range are no range.
    induction chosen with
    | nil => rfl
    | cons place chosen ih =>
        obtain ⟨here, others⟩ := List.forall_mem_cons.mp inside
        rw [List.filterMap_cons]
        by_cases clear : word &&& (1 : UInt32) <<< place.toUInt32 = 0
        · have unset := (and_bit_eq_zero_iff word here).mp clear
          rw [if_pos clear, List.filter_cons_of_neg (Bool.eq_false_iff.mp unset)]
          exact ih others
        · have set : word.toNat.testBit place = true :=
            Bool.eq_true_of_not_eq_false (mt (and_bit_eq_zero_iff word here).mpr clear)
          rw [if_neg clear, List.filter_cons_of_pos set]
          dsimp only
          rw [List.map_cons, List.map_cons, ih others, toNat_one_shiftLeft here]
  exact places (List.range 32) fun place member => List.mem_range.mp member

/-! ## Entries -/

namespace Era

/-- The bit that the tables of an era give a name. -/
def bit? (era : Era) (name : List Char) : Option Nat :=
  (era.flags.find? fun flag => flag.2.toList = name).map fun flag => flag.1.toNat

/-- The number of an entry: that of the bit with its name, or the one that it spells. -/
def entryNumber? (era : Era) (entry : List Char) : Option Nat :=
  (era.bit? entry).or (Text.prefixedNumber? entry)

/-- A name stands for one bit in an era: the shared table and that of the era give no name twice. -/
theorem bit?_of_mem {era : Era} {bit : UInt32} {name : String} (member : (bit, name) ∈ era.flags) :
    era.bit? name.toList = some bit.toNat := by
  have all : (era.flags.all fun flag => era.bit? flag.2.toList = some flag.1.toNat) = true := by
    cases era <;> decide
  have each := List.all_eq_true.mp all _ member
  exact of_decide_eq_true each

/-- The names are written in capitals and underscores. -/
theorem capital_of_mem {era : Era} {flag : UInt32 × String} (member : flag ∈ era.flags) {c : Char}
    (inName : c ∈ flag.2.toList) : (c.isUpper || c == '_') = true := by
  have all :
      (era.flags.all fun flag => flag.2.toList.all fun c => c.isUpper || c == '_') = true := by
    cases era <;> decide
  exact List.all_eq_true.mp (List.all_eq_true.mp all _ member) _ inName

/-- A spelled number is no name. -/
theorem bit?_of_zero (era : Era) (rest : List Char) : era.bit? ('0' :: rest) = none := by
  rw [bit?, Option.map_eq_none_iff, List.find?_eq_none]
  intro flag member same
  have first : '0' ∈ flag.2.toList := by
    rw [of_decide_eq_true same]
    exact List.mem_cons_self
  exact absurd (capital_of_mem member first) (by decide)

theorem entryNumber?_spelled (era : Era) (n : Nat) :
    era.entryNumber? ("0x" ++ Text.hex 0 n).toList = some n := by
  have spelled : ("0x" ++ Text.hex 0 n).toList = '0' :: 'x' :: (Text.hex 0 n).toList :=
    String.toList_append
  rw [entryNumber?, Text.prefixedNumber?_hex, spelled, bit?_of_zero, Option.none_or]

theorem entryNumber?_flagText (era : Era) (bit : UInt32) :
    era.entryNumber? (flagText era bit).toList = some bit.toNat := by
  rw [flagText]
  cases found : era.flags.lookup bit with
  | none => exact era.entryNumber?_spelled bit.toNat
  | some name =>
      have member : (bit, name) ∈ era.flags := by
        obtain ⟨before, after, split, -⟩ := List.lookup_eq_some_iff.mp found
        rw [split]
        exact List.mem_append_right _ List.mem_cons_self
      rw [entryNumber?, bit?_of_mem member, Option.some_or]

theorem space_not_mem_of_bit? {era : Era} {name : List Char} {number : Nat}
    (read : era.bit? name = some number) : ' ' ∉ name := by
  obtain ⟨flag, found, -⟩ := Option.map_eq_some_iff.mp read
  have same := List.find?_some found
  rw [← of_decide_eq_true same]
  intro space
  exact absurd (capital_of_mem (List.mem_of_find?_eq_some found) space) (by decide)

/-- No entry runs over a space. -/
theorem space_not_mem_of_entryNumber? {era : Era} {entry : List Char} {number : Nat}
    (read : era.entryNumber? entry = some number) : ' ' ∉ entry := by
  rcases Option.or_eq_some_iff.mp read with named | ⟨-, spelled⟩
  · exact space_not_mem_of_bit? named
  · exact Text.space_not_mem_of_prefixedNumber? spelled

end Era

/-! ## Lists -/

/-- The entries between the bars of a list, from what stands between its spaces. -/
def barSeparated? : List (List Char) → Option (List (List Char))
  | [] => none
  | [entry] => some [entry]
  | entry :: bar :: others =>
    if bar = ['|'] then (barSeparated? others).map (entry :: ·) else none

theorem barSeparated?_intercalate (entry : String) (others : List String)
    (solid : ∀ text ∈ entry :: others, ' ' ∉ text.toList) :
    barSeparated? ((" | ".intercalate (entry :: others)).toList.splitOn ' ') =
      some ((entry :: others).map String.toList) := by
  induction others generalizing entry with
  | nil =>
      rw [String.intercalate_singleton, List.splitOn_eq_singleton (solid entry List.mem_cons_self)]
      rfl
  | cons next others ih =>
      obtain ⟨here, behind⟩ := List.forall_mem_cons.mp solid
      have spelled : (" | ".intercalate (entry :: next :: others)).toList =
          entry.toList ++ ' ' :: (['|'] ++ ' ' :: (" | ".intercalate (next :: others)).toList) := by
        rw [String.intercalate_cons_cons, String.toList_append, String.toList_append,
          List.append_assoc]
        rfl
      rw [spelled, List.splitOn_append_cons_self_of_not_mem here,
        List.splitOn_append_cons_self_of_not_mem (by decide), barSeparated?, if_pos rfl,
        ih next behind]
      rfl

/-- The text between the parentheses behind the first space. -/
def parenthesized? (text : List Char) : Option (List Char) :=
  match text.dropWhile (· ≠ ' ') with
  | ' ' :: '(' :: inside => if inside.getLast? = some ')' then some inside.dropLast else none
  | _ => none

theorem ne_space_of_not_mem {front : List Char} (solid : ' ' ∉ front) :
    ∀ c ∈ front, decide (c ≠ ' ') = true := by
  intro c member
  refine decide_eq_true ?_
  rintro rfl
  exact solid member

theorem parenthesized?_append {front : List Char} (solid : ' ' ∉ front) (list : List Char) :
    parenthesized? (front ++ ' ' :: '(' :: (list ++ [')'])) = some list := by
  rw [parenthesized?, List.dropWhile_append_of_pos (ne_space_of_not_mem solid),
    List.dropWhile_cons_of_neg (by decide)]
  change (if (list ++ [')']).getLast? = some ')' then some (list ++ [')']).dropLast else none) = _
  rw [List.getLast?_concat, if_pos rfl, List.dropLast_concat]

namespace Era

/-- The numbers of the entries of a list. -/
def readList? (era : Era) (list : List Char) : Option (List Nat) :=
  (barSeparated? (list.splitOn ' ')).bind (·.mapM era.entryNumber?)

/-- The number of the word in front of a list, and the numbers of the entries in the list. -/
def readFlags? (era : Era) (text : List Char) : Option (Nat × List Nat) := do
  let number ← Text.prefixedNumber? (text.takeWhile (· ≠ ' '))
  let numbers ← (parenthesized? text).bind era.readList?
  return (number, numbers)

theorem readList?_intercalate (era : Era) (entry : String) (others : List String)
    (solid : ∀ text ∈ entry :: others, ' ' ∉ text.toList) :
    era.readList? (" | ".intercalate (entry :: others)).toList =
      ((entry :: others).map String.toList).mapM era.entryNumber? := by
  rw [readList?, barSeparated?_intercalate entry others solid, Option.bind_some]

theorem mapM_entryNumber?_flagText (era : Era) (bits : List UInt32) :
    (bits.map fun bit => (flagText era bit).toList).mapM era.entryNumber? =
      some (bits.map UInt32.toNat) := by
  induction bits with
  | nil => rfl
  | cons bit bits ih => rw [List.map_cons, List.mapM_cons, era.entryNumber?_flagText, ih]; rfl

end Era

/-! ## Flags of a word -/

/-- What the list of a word holds: its set bits, or a lone zero. -/
def listedNumbers (word : UInt32) : List Nat :=
  if word = 0 then [0] else bitsBelow word.toNat 32

/-- The numbers are the set bits of a word, each once and in increasing order, and nothing else. For
the word without a set bit they are a lone zero. -/
structure ListsBits (word : UInt32) (numbers : List Nat) : Prop where
  increasing : numbers.Pairwise (· < ·)
  bits (some : word ≠ 0) {number : Nat} : number ∈ numbers ↔
    ∃ place < 32, word.toNat.testBit place = true ∧ number = 2 ^ place
  zero (none : word = 0) : numbers = [0]
  total : numbers.sum = word.toNat

theorem listsBits_listedNumbers (word : UInt32) : ListsBits word (listedNumbers word) := by
  by_cases none : word = 0
  · rw [listedNumbers, if_pos none]
    exact ⟨List.pairwise_singleton _ _, (absurd none ·), fun _ => rfl, by rw [none]; rfl⟩
  · rw [listedNumbers, if_neg none]
    refine ⟨pairwise_bitsBelow _ _, fun _ => mem_bitsBelow_iff, (absurd · none), ?_⟩
    rw [sum_bitsBelow, Nat.mod_eq_of_lt word.toNat_lt]

theorem setBits_eq_nil_iff (word : UInt32) : setBits word = [] ↔ word = 0 := by
  constructor
  · intro none
    have total := sum_bitsBelow word.toNat 32
    rw [← map_toNat_setBits, none, Nat.mod_eq_of_lt word.toNat_lt] at total
    exact UInt32.toNat_inj.mp total.symm
  · rintro rfl
    decide

theorem readList?_flagEntries (era : Era) (word : UInt32) :
    era.readList? (" | ".intercalate (flagEntries era word)).toList =
      some (listedNumbers word) := by
  unfold flagEntries
  cases bits : setBits word with
  | nil =>
      rw [listedNumbers, if_pos ((setBits_eq_nil_iff word).mp bits)]
      have spelled : era.entryNumber? "0x0".toList = some 0 := era.entryNumber?_spelled 0
      rw [era.readList?_intercalate "0x0" [] (by decide), List.map_singleton, List.mapM_cons,
        spelled]
      rfl
  | cons bit others =>
      have set : word ≠ 0 := by
        intro none
        rw [(setBits_eq_nil_iff word).mpr none] at bits
        cases bits
      have solid : ∀ text ∈ (bit :: others).map (flagText era), ' ' ∉ text.toList := by
        rintro text member
        obtain ⟨bit, -, rfl⟩ := List.mem_map.mp member
        exact Era.space_not_mem_of_entryNumber? (era.entryNumber?_flagText bit)
      have numbers : (bit :: others).map UInt32.toNat = listedNumbers word := by
        rw [listedNumbers, if_neg set, ← map_toNat_setBits, bits]
      calc era.readList? (" | ".intercalate ((bit :: others).map (flagText era))).toList
          = (((bit :: others).map (flagText era)).map String.toList).mapM era.entryNumber? :=
            era.readList?_intercalate _ _ solid
        _ = some (listedNumbers word) := by
            rw [List.map_map, ← numbers]
            exact era.mapM_entryNumber?_flagText _

theorem toList_flagsText (era : Era) (word : UInt32) :
    (flagsText era word).toList = ("0x" ++ Text.hex 8 word.toNat).toList ++
      ' ' :: '(' :: ((" | ".intercalate (flagEntries era word)).toList ++ [')']) := by
  rw [flagsText, String.toList_append, String.toList_append, String.toList_append,
    List.append_assoc, List.append_assoc]
  rfl

theorem parenthesized?_flagsText (era : Era) (word : UInt32) :
    parenthesized? (flagsText era word).toList =
      some (" | ".intercalate (flagEntries era word)).toList := by
  have solid := Text.space_not_mem_of_prefixedNumber? (Text.prefixedNumber?_hex 8 word.toNat)
  rw [toList_flagsText, parenthesized?_append solid]

theorem bind_readList?_flagsText (era : Era) (word : UInt32) :
    (parenthesized? (flagsText era word).toList).bind era.readList? =
      some (listedNumbers word) := by
  rw [parenthesized?_flagsText, Option.bind_some, readList?_flagEntries]

theorem readFlags?_flagsText (era : Era) (word : UInt32) :
    era.readFlags? (flagsText era word).toList = some (word.toNat, listedNumbers word) := by
  have solid := Text.space_not_mem_of_prefixedNumber? (Text.prefixedNumber?_hex 8 word.toNat)
  have front : (flagsText era word).toList.takeWhile (· ≠ ' ') =
      ("0x" ++ Text.hex 8 word.toNat).toList := by
    rw [toList_flagsText, List.takeWhile_append_of_pos (ne_space_of_not_mem solid),
      List.takeWhile_cons_of_neg (by decide), List.append_nil]
  rw [Era.readFlags?, front, Text.prefixedNumber?_hex, bind_readList?_flagsText]
  rfl

theorem listedNumbers_injective : Function.Injective listedNumbers := by
  intro first second same
  rw [← UInt32.toNat_inj, ← (listsBits_listedNumbers first).total, same,
    (listsBits_listedNumbers second).total]

/-- **A flags text is faithful in its era.** The number in front of the list is that of the word,
the list holds the set bits of the word and so adds up to that number, and no two words have one
list. -/
theorem flagsText_faithful (era : Era) :
    (∀ word, ∃ numbers, era.readFlags? (flagsText era word).toList = some (word.toNat, numbers) ∧
      ListsBits word numbers) ∧
    parenthesized? (flagsText era 0).toList = some "0x0".toList ∧
    Function.Injective fun word => parenthesized? (flagsText era word).toList := by
  refine ⟨?_, ?_, ?_⟩
  · intro word
    exact ⟨listedNumbers word, readFlags?_flagsText era word, listsBits_listedNumbers word⟩
  · have none : setBits 0 = [] := (setBits_eq_nil_iff 0).mpr rfl
    rw [parenthesized?_flagsText, flagEntries, none]
    rfl
  · intro first second same
    apply listedNumbers_injective
    apply Option.some_injective
    calc some (listedNumbers first)
        = (parenthesized? (flagsText era first).toList).bind era.readList? :=
          (bind_readList?_flagsText era first).symm
      _ = (parenthesized? (flagsText era second).toList).bind era.readList? :=
          congrArg (·.bind era.readList?) same
      _ = some (listedNumbers second) := bind_readList?_flagsText era second

end PycListing
