import PycListing.Opcode.Registry
import PycListing.Proofs.Text.Numeral
import PycListing.Proofs.Text.Utf8
import PycListing.Proofs.Text.Words

/-! # Mnemonics of the registered tables

What a slot holds is what was written to it last (`PycListing.Opcode.Slots.lookup_ofSteps`). In
every registered table the mnemonics tell the opcodes apart, those of undefined opcodes included,
and each of them is a word that looks neither like a number nor like a jump mark
(`PycListing.Opcode.legible_of_mem_registry`), so that one opcode at most bears the name of those
that extend arguments (`PycListing.Opcode.extender_eq_some_iff`). The tables are checked by a pass
over what is written to their slots, the last write first.
-/

namespace PycListing.Opcode

/-! ## Writes to slots -/

/-- What one write leaves in a slot. -/
abbrev Write := UInt8 × Option Definition

def Step.writes : Step → List Write
  | .plain entries => entries.map fun (op, mnemonic) => (op, some ⟨mnemonic, plainKind op⟩)
  | .define entries => entries.map fun (op, definition) => (op, some definition)
  | .remove entries => entries.map fun (op, _) => (op, none)

/-- What steps write to the slots, the last write first. -/
def newestFirst (steps : List Step) : List Write :=
  (steps.flatMap Step.writes).reverse

/-- What the newest write to a slot left in it. -/
def latest (op : UInt8) : List Write → Option Definition
  | [] => none
  | write :: older => if write.1 = op then write.2 else latest op older

namespace Slots

/-- The slots after some writes. -/
def write (slots : Slots) (writes : List Write) : Slots :=
  writes.foldl (fun slots write => slots.put write.1 write.2) slots

theorem step_eq_write (slots : Slots) (step : Step) : slots.step step = slots.write step.writes := by
  cases step with
  | plain entries => rw [Slots.step, define, Step.writes, write, List.foldl_map, List.foldl_map]
  | define entries => rw [Slots.step, define, Step.writes, write, List.foldl_map]
  | remove entries => rw [Slots.step, Step.writes, write, List.foldl_map]

theorem foldl_step_eq_write (slots : Slots) (steps : List Step) :
    steps.foldl step slots = slots.write (steps.flatMap Step.writes) := by
  induction steps generalizing slots with
  | nil => rfl
  | cons step steps ih =>
      rw [List.foldl_cons, ih, step_eq_write, List.flatMap_cons, write, write, write,
        List.foldl_append]

theorem lookup_write_reverse (op : UInt8) (writes : List Write) :
    (empty.write writes.reverse).lookup op = latest op writes := by
  induction writes with
  | nil => exact lookup_empty op
  | cons newest older ih =>
      rw [latest, ← ih, List.reverse_cons, write, List.foldl_append]
      exact lookup_put _ _ _ _

/-- A slot holds what was written to it last. -/
theorem lookup_ofSteps (steps : List Step) (op : UInt8) :
    (ofSteps steps).lookup op = latest op (newestFirst steps) := by
  rw [ofSteps, foldl_step_eq_write, newestFirst, ← lookup_write_reverse, List.reverse_reverse]

end Slots

/-! ## Words -/

/-- A text that stands as one word and looks neither like a number nor like a jump mark. -/
def IsWord (text : List Char) : Prop :=
  ∃ first rest, text = first :: rest ∧ first.isDigit = false ∧ first ≠ '>' ∧
    ∀ c ∈ text, Text.isBlank c = false

/-- A word that is no number in angle brackets. -/
def IsName (text : List Char) : Prop :=
  IsWord text ∧ text.head? ≠ some '<'

/-- Whether bytes are printable ASCII characters, the first of them a capital letter. -/
def isNameBytes (bytes : List UInt8) : Bool :=
  bytes.head?.any (fun first => Nat.ble 0x41 first.toNat && Nat.ble first.toNat 0x5a) &&
    bytes.all fun byte => Nat.ble 0x21 byte.toNat && Nat.ble byte.toNat 0x7e

/-- A character all of whose bytes are ASCII is its only byte. -/
theorem utf8EncodeChar_of_ascii {c : Char}
    (ascii : ∀ byte ∈ String.utf8EncodeChar c, byte.toNat < 0x80) :
    c.toNat < 0x80 ∧ String.utf8EncodeChar c = [UInt8.ofNat c.toNat] := by
  have beyond (n : Nat) : ¬(UInt8.ofNat (n % 64 + 128)).toNat < 0x80 := by
    rw [UInt8.toNat_ofNat']
    omega
  rw [String.utf8EncodeChar.eq_1] at ascii ⊢
  by_cases small : c.val.toNat ≤ 127
  · exact ⟨Nat.lt_succ_of_le small, if_pos small⟩
  · rw [if_neg small] at ascii
    exfalso
    split at ascii
    · exact beyond _ (ascii _ (.tail _ (.head _)))
    · split at ascii
      · exact beyond _ (ascii _ (.tail _ (.head _)))
      · exact beyond _ (ascii _ (.tail _ (.head _)))

theorem isName_of_isNameBytes {name : String} (passed : isNameBytes (Text.utf8Bytes name) = true) :
    IsName name.toList := by
  simp only [isNameBytes, Text.utf8Bytes_eq_flatMap, Bool.and_eq_true, List.all_eq_true,
    Nat.ble_eq] at passed
  obtain ⟨capital, printable⟩ := passed
  have ascii : ∀ c ∈ name.toList, c.toNat < 0x80 ∧ String.utf8EncodeChar c = [UInt8.ofNat c.toNat] := by
    intro c member
    refine utf8EncodeChar_of_ascii fun byte inChar => ?_
    have bounds := printable byte (List.mem_flatMap.mpr ⟨c, member, inChar⟩)
    omega
  have value {n : Nat} (small : n < 0x80) : (UInt8.ofNat n).toNat = n := by
    rw [UInt8.toNat_ofNat']
    omega
  have bounds : ∀ c ∈ name.toList, 0x21 ≤ c.toNat ∧ c.toNat ≤ 0x7e := by
    intro c member
    obtain ⟨small, only⟩ := ascii c member
    have inChar : UInt8.ofNat c.toNat ∈ String.utf8EncodeChar c := only ▸ List.mem_cons_self
    have byte := printable _ (List.mem_flatMap.mpr ⟨c, member, inChar⟩)
    rwa [value small] at byte
  cases text : name.toList with
  | nil =>
      rw [text] at capital
      cases capital
  | cons first rest =>
      rw [text] at ascii bounds capital
      obtain ⟨small, only⟩ := ascii first List.mem_cons_self
      rw [List.flatMap_cons, only, List.cons_append, List.head?_cons, Option.any_some,
        value small, Bool.and_eq_true, Nat.ble_eq, Nat.ble_eq] at capital
      refine ⟨⟨first, rest, rfl, ?_, ?_, fun c member => ?_⟩, ?_⟩
      · rw [Char.isDigit, Bool.and_eq_false_iff]
        right
        rw [decide_eq_false_iff_not, UInt32.le_iff_toNat_le]
        exact Nat.not_le.mpr (Nat.lt_of_lt_of_le (by decide) capital.1)
      · rintro rfl
        exact absurd capital.1 (by decide)
      · obtain ⟨low, high⟩ := bounds c member
        exact Text.isBlank_eq_false low high
      · rintro ⟨⟩
        exact absurd capital.1 (by decide)

/-! ## Checking what is written -/

/-- A number that different mnemonics of one table do not share. -/
def key (mnemonic : String) : Nat :=
  (Text.utf8Bytes mnemonic).foldl (fun key byte => (31 * key + byte.toNat) % 1947) 0

/-- Whether the definitions that writes leave in slots bear words with different keys. The slots
and the keys that newer writes account for are those of the bits of `seen` and `used`. -/
def wellNamed (seen used : Nat) : List Write → Bool
  | [] => true
  | (op, entry) :: older =>
    if seen.testBit op.toNat then wellNamed seen used older
    else match entry with
      | none => wellNamed (seen ||| 1 <<< op.toNat) used older
      | some definition =>
        isNameBytes (Text.utf8Bytes definition.mnemonic) &&
          !used.testBit (key definition.mnemonic) &&
          wellNamed (seen ||| 1 <<< op.toNat) (used ||| 1 <<< key definition.mnemonic) older

theorem testBit_or_one_shiftLeft_eq_false {bits n m : Nat} :
    (bits ||| 1 <<< n).testBit m = false ↔ bits.testBit m = false ∧ n ≠ m := by
  rw [Nat.testBit_or, Nat.one_shiftLeft, Nat.testBit_two_pow, Bool.or_eq_false_iff, decide_eq_false_iff_not]

theorem latest_cons_of_ne {op : UInt8} {write : Write} {older : List Write} (other : write.1 ≠ op) :
    latest op (write :: older) = latest op older := by
  rw [latest, if_neg other]

/-- What the check tells of the definitions in slots that no newer write accounts for. -/
structure WellNamed (seen used : Nat) (writes : List Write) : Prop where
  name : ∀ op definition, seen.testBit op.toNat = false → latest op writes = some definition →
    IsName definition.mnemonic.toList
  unused : ∀ op definition, seen.testBit op.toNat = false → latest op writes = some definition →
    used.testBit (key definition.mnemonic) = false
  distinct : ∀ op other first second, seen.testBit op.toNat = false →
    seen.testBit other.toNat = false → latest op writes = some first →
    latest other writes = some second → first.mnemonic = second.mnemonic → op = other

namespace WellNamed

variable {seen used : Nat} {here : UInt8} {older : List Write}

theorem nil : WellNamed seen used [] :=
  ⟨nofun, nofun, nofun⟩

theorem ne_of_unseen {op other : UInt8} (isSeen : seen.testBit op.toNat = true)
    (unseen : seen.testBit other.toNat = false) : op ≠ other := by
  rintro rfl
  rw [isSeen] at unseen
  cases unseen

/-- An older write than another one to the same slot does not matter. -/
theorem overwritten (isSeen : seen.testBit here.toNat = true) (entry : Option Definition)
    (named : WellNamed seen used older) : WellNamed seen used ((here, entry) :: older) where
  name op definition unseen found := by
    rw [latest_cons_of_ne (ne_of_unseen isSeen unseen)] at found
    exact named.name op definition unseen found
  unused op definition unseen found := by
    rw [latest_cons_of_ne (ne_of_unseen isSeen unseen)] at found
    exact named.unused op definition unseen found
  distinct op other first second unseen otherUnseen found otherFound same := by
    rw [latest_cons_of_ne (ne_of_unseen isSeen unseen)] at found
    rw [latest_cons_of_ne (ne_of_unseen isSeen otherUnseen)] at otherFound
    exact named.distinct op other first second unseen otherUnseen found otherFound same

/-- An older slot than the one of the newest write. -/
theorem unseen_of_ne {op : UInt8} (unseen : seen.testBit op.toNat = false) (differ : here ≠ op) :
    (seen ||| 1 <<< here.toNat).testBit op.toNat = false :=
  testBit_or_one_shiftLeft_eq_false.mpr ⟨unseen, fun same => differ (UInt8.toNat_inj.mp same)⟩

theorem ne_of_removed {op : UInt8} {definition : Definition}
    (found : latest op ((here, none) :: older) = some definition) : here ≠ op := by
  rintro rfl
  rw [latest, if_pos rfl] at found
  cases found

/-- A removal leaves a slot that needs no name. -/
theorem removed (named : WellNamed (seen ||| 1 <<< here.toNat) used older) :
    WellNamed seen used ((here, none) :: older) where
  name op definition unseen found := by
    have differ := ne_of_removed found
    rw [latest_cons_of_ne differ] at found
    exact named.name op definition (unseen_of_ne unseen differ) found
  unused op definition unseen found := by
    have differ := ne_of_removed found
    rw [latest_cons_of_ne differ] at found
    exact named.unused op definition (unseen_of_ne unseen differ) found
  distinct op other first second unseen otherUnseen found otherFound same := by
    have differ := ne_of_removed found
    have otherDiffer := ne_of_removed otherFound
    rw [latest_cons_of_ne differ] at found
    rw [latest_cons_of_ne otherDiffer] at otherFound
    exact named.distinct op other first second (unseen_of_ne unseen differ)
      (unseen_of_ne otherUnseen otherDiffer) found otherFound same

/-- A definition whose key is unused joins those of the other slots. -/
theorem defined {definition : Definition} (isName : IsName definition.mnemonic.toList)
    (fresh : used.testBit (key definition.mnemonic) = false)
    (named : WellNamed (seen ||| 1 <<< here.toNat) (used ||| 1 <<< key definition.mnemonic) older) :
    WellNamed seen used ((here, some definition) :: older) := by
  have at_ {op : UInt8} {found : Definition}
      (holds : latest op ((here, some definition) :: older) = some found) :
      (here = op ∧ definition = found) ∨ (here ≠ op ∧ latest op older = some found) := by
    by_cases same : here = op
    · rw [latest, if_pos same] at holds
      exact .inl ⟨same, Option.some.inj holds⟩
    · rw [latest_cons_of_ne same] at holds
      exact .inr ⟨same, holds⟩
  -- No slot of an older definition has the key of the newest one.
  have apart {op : UInt8} {found : Definition} (unseen : seen.testBit op.toNat = false)
      (differ : here ≠ op) (holds : latest op older = some found) :
      used.testBit (key found.mnemonic) = false ∧ definition.mnemonic ≠ found.mnemonic := by
    have unused := named.unused op found (unseen_of_ne unseen differ) holds
    obtain ⟨free, keys⟩ := testBit_or_one_shiftLeft_eq_false.mp unused
    exact ⟨free, fun same => keys (congrArg key same)⟩
  refine ⟨fun op found unseen holds => ?_, fun op found unseen holds => ?_, ?_⟩
  · rcases at_ holds with ⟨_, rfl⟩ | ⟨differ, older⟩
    · exact isName
    · exact named.name op found (unseen_of_ne unseen differ) older
  · rcases at_ holds with ⟨_, rfl⟩ | ⟨differ, older⟩
    · exact fresh
    · exact (apart unseen differ older).1
  · intro op other first second unseen otherUnseen holds otherHolds same
    rcases at_ holds with ⟨rfl, rfl⟩ | ⟨differ, found⟩
    · rcases at_ otherHolds with ⟨rfl, _⟩ | ⟨otherDiffer, otherFound⟩
      · rfl
      · exact absurd same (apart otherUnseen otherDiffer otherFound).2
    · rcases at_ otherHolds with ⟨rfl, rfl⟩ | ⟨otherDiffer, otherFound⟩
      · exact absurd same.symm (apart unseen differ found).2
      · exact named.distinct op other first second (unseen_of_ne unseen differ)
          (unseen_of_ne otherUnseen otherDiffer) found otherFound same

end WellNamed

theorem wellNamed_sound {seen used : Nat} {writes : List Write}
    (passed : wellNamed seen used writes = true) : WellNamed seen used writes := by
  induction writes generalizing seen used with
  | nil => exact .nil
  | cons write older ih =>
      obtain ⟨here, entry⟩ := write
      by_cases isSeen : seen.testBit here.toNat = true
      · have others : wellNamed seen used older = true := by
          cases entry <;> rwa [wellNamed, if_pos isSeen] at passed
        exact .overwritten isSeen entry (ih others)
      · cases entry with
        | none =>
            rw [wellNamed, if_neg isSeen] at passed
            exact .removed (ih passed)
        | some definition =>
            simp only [wellNamed, if_neg isSeen, Bool.and_eq_true, Bool.not_eq_true'] at passed
            obtain ⟨⟨isName, fresh⟩, others⟩ := passed
            exact .defined (isName_of_isNameBytes isName) fresh (ih others)

/-! ## Legible tables -/

/-- A table whose mnemonics tell its opcodes apart, and are words. -/
structure Table.Legible (table : Table) : Prop where
  injective : Function.Injective table.mnemonic
  word : ∀ op, IsWord (table.mnemonic op).toList

theorem toList_undefined (op : UInt8) :
    ("<" ++ toString op.toNat ++ ">").toList = '<' :: (Nat.toDigits 10 op.toNat ++ ['>']) := by
  rw [String.toList_append, String.toList_append, Text.toList_toString_nat]
  rfl

/-- The number of an undefined opcode in angle brackets is a word. -/
theorem isWord_undefined (op : UInt8) : IsWord ("<" ++ toString op.toNat ++ ">").toList := by
  rw [toList_undefined]
  refine ⟨'<', _, rfl, rfl, by decide, ?_⟩
  simp only [List.forall_mem_cons, List.forall_mem_append]
  exact ⟨rfl, fun _ => Text.isBlank_eq_false_of_mem_toDigits, rfl, List.forall_mem_nil _⟩

theorem undefined_injective {op other : UInt8}
    (same : "<" ++ toString op.toNat ++ ">" = "<" ++ toString other.toNat ++ ">") : op = other := by
  have texts := congrArg String.toList same
  rw [toList_undefined, toList_undefined] at texts
  have digits := List.append_cancel_right (List.cons.inj texts).2
  exact UInt8.toNat_inj.mp (Text.toDigits_injective digits)

/-- A table is legible if the check passes for the steps that assemble its slots. -/
theorem legible_of_wellNamed {table : Table} {steps : List Step}
    (assembled : table.slots = .ofSteps steps)
    (passed : wellNamed 0 0 (newestFirst steps) = true) : table.Legible := by
  have named := wellNamed_sound passed
  have found (op : UInt8) : table.definition? op = latest op (newestFirst steps) := by
    rw [Table.definition?, assembled, Slots.lookup_ofSteps]
  have unseen (op : UInt8) : (0 : Nat).testBit op.toNat = false := Nat.zero_testBit _
  have apart {op other : UInt8} {definition : Definition}
      (defined : latest op (newestFirst steps) = some definition) :
      definition.mnemonic ≠ "<" ++ toString other.toNat ++ ">" := by
    intro same
    have bracket := (named.name op definition (unseen op) defined).2
    rw [same, toList_undefined] at bracket
    exact bracket rfl
  constructor
  · intro op other same
    unfold Table.mnemonic at same
    rw [found, found] at same
    cases first : latest op (newestFirst steps) with
    | none =>
        cases second : latest other (newestFirst steps) with
        | none =>
            rw [first, second] at same
            exact undefined_injective same
        | some definition =>
            rw [first, second] at same
            exact absurd same.symm (apart second)
    | some definition =>
        cases second : latest other (newestFirst steps) with
        | none =>
            rw [first, second] at same
            exact absurd same (apart first)
        | some another =>
            rw [first, second] at same
            exact named.distinct op other definition another (unseen op) (unseen other) first second
              same
  · intro op
    unfold Table.mnemonic
    rw [found]
    cases defined : latest op (newestFirst steps) with
    | none => exact isWord_undefined op
    | some definition => exact (named.name op definition (unseen op) defined).1

/-- What the registered tables are assembled of, in their order. -/
def registeredSteps : List (List Step) :=
  [Legacy.steps15, Legacy.steps20, Legacy.steps21, Legacy.steps22, Legacy.steps23, Legacy.steps24,
   Legacy.steps25, Legacy.steps26, Legacy.steps27, Modern.steps30, Modern.steps31, Modern.steps32,
   Modern.steps33, Modern.steps34, Modern.steps35, Modern.steps36, Alternative.steps26,
   Alternative.steps27, Alternative.steps32, Alternative.steps35]

theorem map_slots_registry : registry.map Table.slots = registeredSteps.map Slots.ofSteps :=
  rfl

theorem mem_of_latest {op : UInt8} {writes : List Write} {definition : Definition}
    (found : latest op writes = some definition) : (op, some definition) ∈ writes := by
  induction writes with
  | nil => cases found
  | cons write older ih =>
      rw [latest] at found
      split at found
      · rename_i same
        rw [← same, ← found]
        exact List.mem_cons_self
      · exact List.mem_cons_of_mem _ (ih found)

/-- What holds of every write holds of every definition of a registered table. -/
theorem check_of_definition? {check : Write → Bool}
    (passed : registeredSteps.all (fun steps => (newestFirst steps).all check) = true)
    {table : Table} (registered : table ∈ registry) {op : UInt8} {definition : Definition}
    (found : table.definition? op = some definition) : check (op, some definition) = true := by
  have member : table.slots ∈ registry.map Table.slots := List.mem_map_of_mem registered
  rw [map_slots_registry] at member
  obtain ⟨steps, listed, assembled⟩ := List.mem_map.mp member
  rw [Table.definition?, ← assembled, Slots.lookup_ofSteps] at found
  have checked := List.all_eq_true.mp passed steps listed
  exact List.all_eq_true.mp checked _ (mem_of_latest found)

theorem wellNamed_registeredSteps :
    registeredSteps.all (fun steps => wellNamed 0 0 (newestFirst steps)) = true := by
  decide +kernel

/-- **Registered tables are legible.** -/
theorem legible_of_mem_registry {table : Table} (registered : table ∈ registry) :
    table.Legible := by
  have member : table.slots ∈ registry.map Table.slots := List.mem_map_of_mem registered
  rw [map_slots_registry] at member
  obtain ⟨steps, listed, assembled⟩ := List.mem_map.mp member
  have passed := List.all_eq_true.mp wellNamed_registeredSteps steps listed
  exact legible_of_wellNamed assembled.symm passed

/-! ## The extending opcode -/

theorem mem_all (opcode : UInt8) : opcode ∈ all := by
  refine List.mem_map.mpr ⟨opcode.toNat, List.mem_range.mpr opcode.toNat_lt, ?_⟩
  exact UInt8.ofNat_toNat

/-- Only a defined opcode bears the name of the extending one: the mnemonics of undefined ones stand
in angle brackets. -/
theorem any_lookup_iff {table : Table} {op : UInt8} :
    ((table.slots.lookup op).any fun definition => definition.mnemonic == extenderName) = true ↔
      table.mnemonic op = extenderName := by
  rw [Table.mnemonic, Table.definition?]
  cases table.slots.lookup op with
  | none =>
      have apart : "<" ++ toString op.toNat ++ ">" ≠ extenderName := by
        intro same
        have texts := congrArg String.toList same
        rw [toList_undefined] at texts
        cases (List.cons.inj texts).1
      simp only [Option.any_none, Bool.false_eq_true, apart]
  | some definition => rw [Option.any_some, beq_iff_eq]

/-- The extending opcode of a registered table is the one that is called so. -/
theorem extender_eq_some_iff {table : Table} (registered : table ∈ registry) {opcode : UInt8} :
    table.extender = some opcode ↔ table.mnemonic opcode = extenderName := by
  rw [table.extender_eq]
  constructor
  · intro found
    have bears := List.find?_some found
    exact any_lookup_iff.mp bears
  · intro named
    have listed : (table.slots.opcode? extenderName).isSome :=
      List.find?_isSome.mpr
        ⟨opcode, List.mem_reverse.mpr (mem_all opcode), any_lookup_iff.mpr named⟩
    obtain ⟨other, found⟩ := Option.isSome_iff_exists.mp listed
    have bears := List.find?_some found
    have same : table.mnemonic other = table.mnemonic opcode :=
      (any_lookup_iff.mp bears).trans named.symm
    rw [found, (legible_of_mem_registry registered).injective same]

end PycListing.Opcode
