import PycListing.Instruction.LineTable
import Mathlib.Algebra.BigOperators.Fin

/-! # Line starts are where the line changes

The pairs of a line table give every offset a line: the first line, moved by the line increments of
the pairs that reach no further than the offset (`PycListing.LineTable.lineAt`). Reading the table
pair by pair comes to the offsets at which this line differs from the one before, as far as the line
is a 32-bit number (`PycListing.LineTable.mem_startsFrom_iff`). So the list of line starts says of
every offset which line it belongs to (`PycListing.CodeUnit.lineStarts_exact`).
-/

namespace PycListing

namespace LineTable

variable {signed : Bool}

theorem increment_bounds (signed : Bool) (lines : UInt8) :
    -128 ≤ increment signed lines ∧ increment signed lines < 256 := by
  have small : lines.toNat < 256 := lines.toNat_lt
  have above := lines.toInt8.le_toInt
  have below := lines.toInt8.toInt_lt
  cases signed with
  | true =>
      change -128 ≤ lines.toInt8.toInt ∧ lines.toInt8.toInt < 256
      omega
  | false =>
      change -128 ≤ (lines.toNat : Int) ∧ (lines.toNat : Int) < 256
      omega

/-- The complete pairs of a line table, a byte increment and a line increment each. -/
def pairs (signed : Bool) : List UInt8 → List (Nat × Int)
  | bytes :: lines :: rest => (bytes.toNat, increment signed lines) :: pairs signed rest
  | _ => []

/-- The byte increments up to a pair, with its own. -/
def reach (pairs : List (Nat × Int)) (index : Nat) : Nat :=
  ((pairs.take (index + 1)).map Prod.fst).sum

/-- All byte increments. -/
def extent (pairs : List (Nat × Int)) : Nat :=
  (pairs.map Prod.fst).sum

/-- The line at an offset: the first line and the line increments of all pairs whose byte increments
come to no more than the offset. -/
def lineAt (first : Int) (pairs : List (Nat × Int)) (offset : Nat) : Int :=
  first + ∑ index : Fin pairs.length, if reach pairs index ≤ offset then pairs[index].2 else 0

@[simp] theorem extent_nil : extent [] = 0 :=
  rfl

@[simp] theorem extent_cons (pair : Nat × Int) (rest : List (Nat × Int)) :
    extent (pair :: rest) = pair.1 + extent rest :=
  List.sum_cons

theorem reach_cons_zero (pair : Nat × Int) (rest : List (Nat × Int)) :
    reach (pair :: rest) 0 = pair.1 := by
  simp [reach]

theorem reach_cons_succ (pair : Nat × Int) (rest : List (Nat × Int)) (index : Nat) :
    reach (pair :: rest) (index + 1) = pair.1 + reach rest index := by
  rw [reach, List.take_succ_cons, List.map_cons, List.sum_cons, reach]

@[simp] theorem lineAt_nil (first : Int) (offset : Nat) : lineAt first [] offset = first :=
  Int.add_zero first

/-- A pair has no part in the lines before the offset that it reaches. From there on it has moved
the first line. -/
theorem lineAt_cons (first : Int) (bytes : Nat) (lines : Int) (rest : List (Nat × Int))
    (offset : Nat) :
    lineAt first ((bytes, lines) :: rest) offset =
      if bytes ≤ offset then lineAt (first + lines) rest (offset - bytes) else first := by
  have split : lineAt first ((bytes, lines) :: rest) offset =
      first + ((if bytes ≤ offset then lines else 0) +
        ∑ index : Fin rest.length,
          if bytes + reach rest index ≤ offset then rest[index].2 else 0) := by
    rw [lineAt]
    congr 1
    refine (Fin.sum_univ_succ _).trans ?_
    simp only [Fin.val_zero, Fin.val_succ, reach_cons_zero, reach_cons_succ]
    rfl
  rw [split]
  by_cases reached : bytes ≤ offset
  · have shifted (index : Fin rest.length) :
        bytes + reach rest index ≤ offset ↔ reach rest index ≤ offset - bytes := by omega
    simp only [reached, if_true, shifted, lineAt, add_assoc]
  · have none (index : Fin rest.length) : ¬bytes + reach rest index ≤ offset := by omega
    simp only [reached, none, if_false, Finset.sum_const_zero, add_zero]

theorem lineAt_of_extent_le {first : Int} {pairs : List (Nat × Int)} {offset : Nat}
    (beyond : extent pairs ≤ offset) :
    lineAt first pairs offset = lineAt first pairs (extent pairs) := by
  induction pairs generalizing first offset with
  | nil => rw [lineAt_nil, lineAt_nil]
  | cons pair rest ih =>
      obtain ⟨bytes, lines⟩ := pair
      rw [extent_cons] at beyond ⊢
      dsimp only at beyond ⊢
      rw [lineAt_cons, lineAt_cons, if_pos (by omega), if_pos (by omega), Nat.add_sub_cancel_left]
      exact ih (by omega)

/-! ## What reading a table comes to -/

theorem toNat_toUInt32_toNat {line : Int} (nonneg : 0 ≤ line) (below : line < 2 ^ 32) :
    (line.toNat.toUInt32.toNat : Int) = line := by
  have narrow : line.toNat < 2 ^ 32 := by omega
  rw [Nat.toUInt32_eq, UInt32.toNat_ofNat', Nat.mod_eq_of_lt narrow, Int.toNat_of_nonneg nonneg]

theorem mem_entry_iff {last : Option Int} {address place : Nat} {line : Int} {started : UInt32} :
    (place, started) ∈ entry last address line ↔
      place = address ∧ last ≠ some line ∧ (started.toNat : Int) = line := by
  have small : started.toNat < 2 ^ 32 := started.toNat_lt
  rw [entry, Nat.pow_eq]
  split
  · rename_i same
    simp only [List.not_mem_nil, same, ne_eq, not_true_eq_false, false_and, and_false]
  · rename_i differs
    split
    · rename_i fits
      obtain ⟨nonneg, below⟩ := fits
      have own := toNat_toUInt32_toNat nonneg below
      have same : started = line.toNat.toUInt32 ↔ (started.toNat : Int) = line := by
        rw [← UInt32.toNat_inj]
        omega
      simp only [List.mem_singleton, Prod.mk.injEq, same, ne_eq, differs, not_false_eq_true,
        true_and]
    · rename_i outside
      simp only [List.not_mem_nil, false_iff]
      rintro ⟨-, -, rfl⟩
      exact outside ⟨Int.natCast_nonneg _, by omega⟩

/-- The line before an offset. Before the first one it is that of the start listed last. -/
def lineBefore (last : Option Int) (line : Nat → Int) (offset : Nat) : Option Int :=
  if offset = 0 then last else some (line (offset - 1))

/-- The starts listed from an address on are the offsets from there at which the line is not the one
before. The induction is on the table, for all addresses and lines at once. -/
theorem mem_startsFrom_iff {last : Option Int} {address : Nat} {line : Int} {table : List UInt8}
    {place : Nat} {started : UInt32} :
    (place, started) ∈ startsFrom signed last address line table ↔
      ∃ ahead, place = address + ahead ∧ ahead ≤ extent (pairs signed table) ∧
        lineBefore last (lineAt line (pairs signed table)) ahead ≠
          some (lineAt line (pairs signed table) ahead) ∧
        (started.toNat : Int) = lineAt line (pairs signed table) ahead := by
  fun_induction startsFrom signed last address line table with
  | case1 last address line lines rest ih =>
      have moved : lineAt line ((0, increment signed lines) :: pairs signed rest) =
          lineAt (line + increment signed lines) (pairs signed rest) := by
        funext offset
        rw [lineAt_cons, if_pos (Nat.zero_le offset), Nat.sub_zero]
      rw [ih, pairs, UInt8.toNat_zero, moved, extent_cons, Nat.zero_add]
  | case2 last address line bytes lines rest moves ih =>
      have positive : 0 < bytes.toNat :=
        Nat.pos_of_ne_zero fun zero => moves (UInt8.toNat_inj.mp zero)
      rw [List.mem_append, mem_entry_iff, ih, pairs, extent_cons]
      have here {ahead : Nat} (before : ahead < bytes.toNat) :
          lineAt line ((bytes.toNat, increment signed lines) :: pairs signed rest) ahead =
            line := by
        rw [lineAt_cons, if_neg (Nat.not_le.mpr before)]
      have onward (ahead : Nat) :
          lineAt line ((bytes.toNat, increment signed lines) :: pairs signed rest)
            (bytes.toNat + ahead) = lineAt (line + increment signed lines) (pairs signed rest)
              ahead := by
        rw [lineAt_cons, if_pos (Nat.le_add_right _ _), Nat.add_sub_cancel_left]
      have previous (ahead : Nat) :
          lineBefore last (lineAt line ((bytes.toNat, increment signed lines) :: pairs signed rest))
            (bytes.toNat + ahead) = lineBefore (some line)
              (lineAt (line + increment signed lines) (pairs signed rest)) ahead := by
        rw [lineBefore, if_neg (by omega), lineBefore]
        split
        · rename_i zero
          rw [here (by omega)]
        · rw [Nat.add_sub_assoc (by omega), onward]
      constructor
      · rintro (⟨rfl, differs, same⟩ | ⟨ahead, rfl, inside, differs, same⟩)
        · refine ⟨0, rfl, Nat.zero_le _, ?_, ?_⟩ <;> rw [here positive]
          · exact differs
          · exact same
        · refine ⟨bytes.toNat + ahead, Nat.add_assoc _ _ _, Nat.add_le_add_left inside _, ?_, ?_⟩
          · rw [previous, onward]
            exact differs
          · rw [onward]
            exact same
      · rintro ⟨ahead, rfl, inside, differs, same⟩
        rcases Nat.lt_or_ge ahead bytes.toNat with before | reached
        · rw [here before] at differs same
          rcases Nat.eq_zero_or_pos ahead with rfl | later
          · exact .inl ⟨rfl, differs, same⟩
          · rw [lineBefore, if_neg (Nat.pos_iff_ne_zero.mp later), here (by omega)] at differs
            exact absurd rfl differs
        · obtain ⟨ahead, rfl⟩ := Nat.exists_eq_add_of_le reached
          rw [previous, onward] at differs
          rw [onward] at same
          exact .inr ⟨ahead, (Nat.add_assoc _ _ _).symm, Nat.le_of_add_le_add_left inside, differs,
            same⟩
  | case3 table last address line single =>
      have none : pairs signed table = [] := by
        rw [pairs]
        exact single
      rw [mem_entry_iff, none]
      simp only [extent_nil, lineAt_nil, Nat.le_zero_eq]
      constructor
      · rintro ⟨rfl, differs, same⟩
        exact ⟨0, rfl, rfl, differs, same⟩
      · rintro ⟨_, rfl, rfl, differs, same⟩
        exact ⟨rfl, differs, same⟩

/-- Line starts come in the order of their offsets. -/
theorem pairwise_startsFrom (signed : Bool) (last : Option Int) (address : Nat) (line : Int)
    (table : List UInt8) :
    (startsFrom signed last address line table).Pairwise
      fun first second => first.1 < second.1 := by
  have one (last : Option Int) (address : Nat) (line : Int) :
      (entry last address line).Pairwise fun first second => first.1 < second.1 := by
    rw [entry]
    split
    · exact .nil
    · split
      · exact List.pairwise_singleton _ _
      · exact .nil
  fun_induction startsFrom signed last address line table with
  | case1 last address line lines rest ih => exact ih
  | case2 last address line bytes lines rest moves ih =>
      refine List.pairwise_append.mpr ⟨one last address line, ih, ?_⟩
      rintro ⟨first, _⟩ inEntry ⟨second, _⟩ inRest
      obtain ⟨rfl, -, -⟩ := mem_entry_iff.mp inEntry
      obtain ⟨ahead, rfl, -⟩ := mem_startsFrom_iff.mp inRest
      have positive : bytes.toNat ≠ 0 := fun zero => moves (UInt8.toNat_inj.mp zero)
      dsimp only
      omega
  | case3 table last address line single => exact one last address line

/-! ## The line of an offset -/

/-- Every offset has the line of the last place up to it at which the line changes. -/
theorem exists_last_change (line : Nat → Int) (offset : Nat) :
    ∃ place ≤ offset, (place = 0 ∨ line (place - 1) ≠ line place) ∧ line place = line offset ∧
      ∀ later, place < later → later ≤ offset → line (later - 1) = line later := by
  induction offset with
  | zero => exact ⟨0, Nat.le_refl _, .inl rfl, rfl, fun later after upTo => by omega⟩
  | succ offset ih =>
      by_cases same : line offset = line (offset + 1)
      · obtain ⟨place, upTo, changes, own, constant⟩ := ih
        refine ⟨place, Nat.le_succ_of_le upTo, changes, own.trans same, fun later after upTo => ?_⟩
        rcases Nat.lt_or_eq_of_le upTo with before | rfl
        · exact constant later after (Nat.le_of_lt_succ before)
        · exact same
      · exact ⟨offset + 1, Nat.le_refl _, .inr same, rfl, fun later after upTo => by omega⟩

/-- In an ordered list the last entry up to an offset is the one that no other one exceeds. -/
theorem getLast?_filter_eq {starts : List (Nat × UInt32)} {offset place : Nat} {started : UInt32}
    (ordered : starts.Pairwise fun first second => first.1 < second.1)
    (member : (place, started) ∈ starts) (upTo : place ≤ offset)
    (greatest : ∀ start ∈ starts, start.1 ≤ offset → start.1 ≤ place) :
    (starts.filter fun start => start.1 ≤ offset).getLast? = some (place, started) := by
  have kept : (place, started) ∈ starts.filter fun start => start.1 ≤ offset :=
    List.mem_filter.mpr ⟨member, decide_eq_true upTo⟩
  have sorted := ordered.filter fun start => decide (start.1 ≤ offset)
  obtain ⟨before, after, split⟩ := List.append_of_mem kept
  rw [split] at sorted
  have nothing : after = [] := by
    refine List.eq_nil_iff_forall_not_mem.mpr fun start inAfter => ?_
    have later : place < start.1 :=
      (List.pairwise_cons.mp (List.pairwise_append.mp sorted).2.1).1 start inAfter
    have inFilter : start ∈ starts.filter fun start => start.1 ≤ offset := by
      rw [split]
      exact List.mem_append_right _ (List.mem_cons_of_mem _ inAfter)
    obtain ⟨listed, reached⟩ := List.mem_filter.mp inFilter
    exact Nat.not_le.mpr later (greatest start listed (of_decide_eq_true reached))
  rw [split, nothing, List.getLast?_concat]

end LineTable

namespace CodeUnit

variable {unit : CodeUnit} {signed : Bool}

/-- The pairs of a unit's line table. -/
def linePairs (unit : CodeUnit) (signed : Bool) : List (Nat × Int) :=
  LineTable.pairs signed unit.lineTable

/-- The source line that an offset of a unit belongs to. -/
def lineAt (unit : CodeUnit) (signed : Bool) (offset : Nat) : Int :=
  LineTable.lineAt unit.firstLine.toNat (unit.linePairs signed) offset

theorem mem_lineStarts_iff {address : Nat} {started : UInt32} :
    (address, started) ∈ unit.lineStarts signed ↔
      address ≤ LineTable.extent (unit.linePairs signed) ∧
        (address = 0 ∨ unit.lineAt signed (address - 1) ≠ unit.lineAt signed address) ∧
        (started.toNat : Int) = unit.lineAt signed address := by
  have changes : LineTable.lineBefore none (unit.lineAt signed) address ≠
      some (unit.lineAt signed address) ↔
        address = 0 ∨ unit.lineAt signed (address - 1) ≠ unit.lineAt signed address := by
    rw [LineTable.lineBefore]
    split
    · rename_i zero
      simp only [ne_eq, reduceCtorEq, not_false_eq_true, zero, true_or]
    · rename_i later
      simp only [ne_eq, Option.some.injEq, later, false_or]
  rw [lineStarts, LineTable.mem_startsFrom_iff, ← changes]
  simp only [Nat.zero_add, exists_eq_left']
  rfl

/-- Behind the last byte increment the line stays as it is. -/
theorem lineAt_min (unit : CodeUnit) (signed : Bool) (offset : Nat) :
    unit.lineAt signed (min offset (LineTable.extent (unit.linePairs signed))) =
      unit.lineAt signed offset := by
  rcases Nat.le_total offset (LineTable.extent (unit.linePairs signed)) with inside | beyond
  · rw [Nat.min_eq_left inside]
  · rw [Nat.min_eq_right beyond]
    exact (LineTable.lineAt_of_extent_le beyond).symm

/-- Every offset has the line of the last start up to it, if that line is a 32-bit number. -/
theorem getLast?_lineStarts {offset : Nat} {started : UInt32}
    (own : (started.toNat : Int) = unit.lineAt signed offset) :
    ∃ place, ((unit.lineStarts signed).filter fun start => start.1 ≤ offset).getLast? =
      some (place, started) := by
  obtain ⟨place, upTo, changes, same, constant⟩ := LineTable.exists_last_change
    (unit.lineAt signed) (min offset (LineTable.extent (unit.linePairs signed)))
  rw [lineAt_min, ← own] at same
  obtain ⟨upToOffset, inside⟩ := Nat.le_min.mp upTo
  refine ⟨place, LineTable.getLast?_filter_eq
    (LineTable.pairwise_startsFrom signed none 0 unit.firstLine.toNat unit.lineTable)
    (mem_lineStarts_iff.mpr ⟨inside, changes, same.symm⟩) upToOffset ?_⟩
  rintro ⟨other, line⟩ member reached
  obtain ⟨inside, changes, -⟩ := mem_lineStarts_iff.mp member
  refine Nat.not_lt.mp fun later => ?_
  rcases changes with rfl | differs
  · exact Nat.not_lt_zero _ later
  · exact differs (constant other later (Nat.le_min.mpr ⟨reached, inside⟩))

/-- **Line starts are where the line changes.** They come in the order of their addresses. An
address is listed with a line if and only if the line is its own and a 32-bit number, the line
table reaches the address, and the line before it is another one, if there is one. So the last entry
up to an offset has the line of the offset, if that is a 32-bit number. -/
theorem lineStarts_exact (unit : CodeUnit) (signed : Bool) :
    ((unit.lineStarts signed).map Prod.fst).Pairwise (· < ·) ∧
      (∀ (address : Nat) (line : Int),
        (∃ started : UInt32, (address, started) ∈ unit.lineStarts signed ∧
            (started.toNat : Int) = line) ↔
          unit.lineAt signed address = line ∧ 0 ≤ line ∧ line < 2 ^ 32 ∧
            address ≤ LineTable.extent (unit.linePairs signed) ∧
            (address = 0 ∨ unit.lineAt signed (address - 1) ≠ unit.lineAt signed address)) ∧
      ∀ offset, 0 ≤ unit.lineAt signed offset → unit.lineAt signed offset < 2 ^ 32 →
        ((unit.lineStarts signed).filter fun start => start.1 ≤ offset).getLast?.map
            (fun start => (start.2.toNat : Int)) = some (unit.lineAt signed offset) := by
  have ordered := LineTable.pairwise_startsFrom signed none 0 unit.firstLine.toNat unit.lineTable
  refine ⟨List.pairwise_map.mpr ordered, fun address line => ?_, fun offset nonneg below => ?_⟩
  · constructor
    · rintro ⟨started, member, rfl⟩
      obtain ⟨inside, changes, own⟩ := mem_lineStarts_iff.mp member
      have small : started.toNat < 2 ^ 32 := started.toNat_lt
      exact ⟨own.symm, Int.natCast_nonneg _, by omega, inside, changes⟩
    · rintro ⟨rfl, nonneg, below, inside, changes⟩
      have own := LineTable.toNat_toUInt32_toNat nonneg below
      exact ⟨_, mem_lineStarts_iff.mpr ⟨inside, changes, own⟩, own⟩
  · have own := LineTable.toNat_toUInt32_toNat nonneg below
    obtain ⟨place, last⟩ := getLast?_lineStarts own
    rw [last, Option.map_some, own]

/-- A line below zero is not listed, and the line after it is, though it was listed before. -/
example : lineStarts { blank .modern "f" with lineTable := [2, 255, 2, 1] } true =
    [(0, 0), (4, 0)] := by
  decide

end CodeUnit

end PycListing
