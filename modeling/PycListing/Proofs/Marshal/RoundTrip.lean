import PycListing.Proofs.Decimal.Limbs
import PycListing.Proofs.Marshal.Encoding
import PycListing.Proofs.Marshal.Refinement
import PycListing.Proofs.Text.Utf8

/-! # Reading an encoding gives back the value

A reader yields a value from some bytes if it takes exactly these bytes, whatever follows them
(`PycListing.Marshal.Read.Yields`). The leaves come first: numbers, payloads and texts. The
descent follows the grammar part by part, and reading on an explicit stack is the descent
(`PycListing.Marshal.read_written`).
-/

namespace PycListing.Marshal

theorem CodeLayout.era_of_ne_modern {layout : CodeLayout} (legacy : layout ≠ .modern) :
    layout.era = .legacy := by
  cases layout with
  | modern => exact absurd rfl legacy
  | long => rfl
  | short => rfl

namespace Read

variable {α β : Type}

/-- A reader takes exactly some bytes, whatever follows them, and comes back with a value. -/
def Yields (reader : Read α) (before : Tables) (bytes : List UInt8) (value : α)
    (after : Tables) : Prop :=
  ∀ offset rest, reader (before.state ⟨offset, bytes ++ rest⟩) =
    .ok value (after.state ⟨offset + bytes.length, rest⟩)

theorem Yields.pure (value : α) (tables : Tables) :
    Yields (Pure.pure value) tables [] value tables :=
  fun _ _ => rfl

theorem Yields.bind {reader : Read α} {next : α → Read β} {before middle after : Tables}
    {first second : List UInt8} {found : α} {value : β}
    (head : Yields reader before first found middle)
    (tail : Yields (next found) middle second value after) :
    Yields (reader >>= next) before (first ++ second) value after := by
  intro offset rest
  rw [List.append_assoc, bind_of_ok (head offset (second ++ rest)), tail, List.length_append,
    Nat.add_assoc]

theorem Yields.bind_nil {reader : Read α} {next : α → Read β} {before middle after : Tables}
    {bytes : List UInt8} {found : α} {value : β} (head : Yields reader before [] found middle)
    (tail : Yields (next found) middle bytes value after) :
    Yields (reader >>= next) before bytes value after :=
  Yields.bind head tail

theorem Yields.bind_pure {reader : Read α} {next : α → Read β} {before middle after : Tables}
    {bytes : List UInt8} {found : α} {value : β} (head : Yields reader before bytes found middle)
    (tail : Yields (next found) middle [] value after) :
    Yields (reader >>= next) before bytes value after := by
  have both := Yields.bind head tail
  rwa [List.append_nil] at both

theorem Yields.map {reader : Read α} {before after : Tables} {bytes : List UInt8} {found : α}
    (f : α → β) (yields : Yields reader before bytes found after) :
    Yields (f <$> reader) before bytes (f found) after := by
  rw [map_eq_pure_bind]
  exact yields.bind_pure (.pure _ _)

/-- Where a reading starts has no part in what it yields. -/
theorem Yields.offset_bind {next : Nat → Read α} {before after : Tables} {bytes : List UInt8}
    {value : α} (yields : ∀ start, Yields (next start) before bytes value after) :
    Yields (offset >>= next) before bytes value after :=
  fun offset rest => yields offset offset rest

/-! ## Leaves -/

theorem take_append (offset : Nat) (bytes rest : List UInt8) :
    (⟨offset, bytes ++ rest⟩ : Cursor).take bytes.length =
      .ok (bytes, ⟨offset + bytes.length, rest⟩) := by
  have enough : bytes.length ≤ (⟨offset, bytes ++ rest⟩ : Cursor).remaining := by
    rw [Cursor.remaining, List.length_append]
    exact Nat.le_add_right _ _
  rw [Cursor.take_eq, if_pos enough, Cursor.advance, List.take_left, List.drop_left]

theorem Yields.payload (bytes : List UInt8) (tables : Tables) :
    Yields (Read.payload bytes.length) tables bytes bytes tables := by
  intro offset rest
  simp only [Read.payload, Tables.state, take_append]

theorem Yields.number {width : Nat} {bytes : List UInt8} (size : bytes.length = width)
    (tables : Tables) : Yields (Read.number width) tables bytes (littleEndian bytes) tables := by
  subst size
  intro offset rest
  simp only [Read.number, Tables.state, Cursor.takeNumber, take_append, Except.map]

theorem Yields.littleEndianBytes {width n : Nat} (fits : n < 256 ^ width) (tables : Tables) :
    Yields (Read.number width) tables (littleEndianBytes width n) n tables := by
  have number := Yields.number (length_littleEndianBytes width n) tables
  rwa [littleEndian_littleEndianBytes fits] at number

theorem Yields.byte {n : Nat} (small : n < 256) (tables : Tables) :
    Yields Read.byte tables [n.toUInt8] n.toUInt8 tables := by
  have number : Yields (Read.number 1) tables [n.toUInt8] n tables :=
    .littleEndianBytes small tables
  exact number.map Nat.toUInt8

theorem Yields.signed {width : Nat} {n : Int} (low : -((256 ^ width / 2 : Nat) : Int) ≤ n)
    (high : n < ((256 ^ width + 1) / 2 : Nat)) (tables : Tables) :
    Yields (Read.signed width) tables (signedBytes width n) n tables := by
  have number := (Yields.number (length_signedBytes width n) tables).map
    fun value : Nat => Int.bmod value (256 ^ width)
  rwa [bmod_littleEndian_signedBytes low high] at number

theorem Yields.signed32 {n : Int} (low : -2 ^ 31 ≤ n) (high : n < 2 ^ 31) (tables : Tables) :
    Yields (Read.signed 4) tables (signedBytes 4 n) n tables :=
  .signed (by norm_num at *; omega) (by norm_num at *; omega) tables

theorem Yields.length {n : Nat} (short : n < 2 ^ 31) (tables : Tables) :
    Yields Read.length tables (signedBytes 4 n) n tables := by
  apply Yields.offset_bind
  intro start
  apply Yields.bind_pure (.signed32 (by omega) (by omega) tables)
  rw [if_neg (by omega), Int.toNat_natCast]
  exact .pure n tables

theorem Yields.text (text : String) (tables : Tables) :
    Yields (Read.text (Text.utf8Bytes text).length) tables (Text.utf8Bytes text) text tables := by
  refine .offset_bind fun start => .bind_pure (.payload _ tables) ?_
  rw [Text.ofUtf8?_utf8Bytes]
  exact .pure text tables

theorem Yields.floatBits (bits : UInt64) (tables : Tables) :
    Yields Read.floatBits tables (PycListing.littleEndianBytes 8 bits.toNat) bits tables := by
  have number : Yields (Read.number 8) tables (PycListing.littleEndianBytes 8 bits.toNat) bits.toNat
      tables := .littleEndianBytes bits.toNat_lt tables
  have read := number.map Nat.toUInt64
  rwa [show bits.toNat.toUInt64 = bits from UInt64.ofNat_toNat] at read

theorem Yields.signed64 {n : Int} (low : -2 ^ 63 ≤ n) (high : n < 2 ^ 63) (tables : Tables) :
    Yields (Read.signed 8) tables (signedBytes 8 n) n tables :=
  .signed (by norm_num at *; omega) (by norm_num at *; omega) tables

/-- A digit of a long integer, which leaves the sign bit of its two bytes clear. -/
theorem Yields.digit {digit : Nat} (small : digit < 2 ^ 15) (tables : Tables) :
    Yields (Read.signed 2) tables (PycListing.littleEndianBytes 2 digit) digit tables := by
  have same : signedBytes 2 digit = PycListing.littleEndianBytes 2 digit := by
    rw [signedBytes, Int.emod_eq_of_lt (by omega) (by norm_num; omega), Int.toNat_natCast]
  rw [← same]
  exact .signed (by norm_num) (by norm_num; omega) tables

theorem Yields.longDigits {digits : List Nat} (small : ∀ digit ∈ digits, digit < 2 ^ 15)
    (tables : Tables) :
    Yields (Read.longDigits digits.length) tables
      (digits.flatMap (PycListing.littleEndianBytes 2)) digits tables := by
  induction digits with
  | nil => exact .pure _ _
  | cons digit digits ih =>
      rw [List.length_cons, Read.longDigits, List.flatMap_cons]
      refine .offset_bind fun start => .bind (.digit (small _ List.mem_cons_self) tables) ?_
      rw [if_neg (by omega), Int.toNat_natCast]
      have more := ih fun other member => small other (List.mem_cons_of_mem _ member)
      exact more.bind_pure (.pure _ _)

/-- The sign of a long integer is that of its count of digits. -/
theorem Yields.longInteger {digits : List Nat} (count : Int) (low : -2 ^ 31 ≤ count)
    (high : count < 2 ^ 31) (size : count.natAbs = digits.length)
    (small : ∀ digit ∈ digits, digit < 2 ^ 15) (tables : Tables) :
    Yields Read.longInteger tables
      (signedBytes 4 count ++ digits.flatMap (PycListing.littleEndianBytes 2))
      (.long (toString (if count < 0 then -((Nat.ofDigits (2 ^ 15) digits : Nat) : Int)
        else ((Nat.ofDigits (2 ^ 15) digits : Nat) : Int)))) tables := by
  have positive : 0 < 2 ^ 15 := by decide
  have shown := Decimal.signedText_eq positive (decide (count < 0)) digits
  simp only [decide_eq_true_eq] at shown
  rw [← shown]
  apply Yields.bind (.signed32 low high tables)
  rw [size]
  exact .bind_pure (.longDigits small tables) (.pure _ _)

theorem Yields.long {digits : List Nat} (short : digits.length < 2 ^ 31)
    (small : ∀ digit ∈ digits, digit < 2 ^ 15) (tables : Tables) :
    Yields Read.longInteger tables
      (signedBytes 4 digits.length ++ digits.flatMap (PycListing.littleEndianBytes 2))
      (.long (toString (Nat.ofDigits (2 ^ 15) digits))) tables := by
  have read := Yields.longInteger digits.length (by omega) (by omega)
    (Int.natAbs_natCast _) small tables
  rwa [if_neg (by omega)] at read

/-- No digits are zero under either sign. -/
theorem Yields.negativeLong {digits : List Nat} (short : digits.length < 2 ^ 31)
    (small : ∀ digit ∈ digits, digit < 2 ^ 15) (tables : Tables) :
    Yields Read.longInteger tables
      (signedBytes 4 (-digits.length) ++ digits.flatMap (PycListing.littleEndianBytes 2))
      (.long (toString (-(Nat.ofDigits (2 ^ 15) digits : Nat) : Int))) tables := by
  have read := Yields.longInteger (-digits.length) (by omega) (by omega)
    (by rw [Int.natAbs_neg, Int.natAbs_natCast]) small tables
  by_cases empty : digits = []
  · subst empty
    exact read
  · have some : 0 < digits.length := List.length_pos_of_ne_nil empty
    rwa [if_pos (by omega)] at read

theorem Yields.lengthOf_short {n : Nat} (short : n < 256) (tables : Tables) :
    Yields (Read.lengthOf .short) tables [n.toUInt8] n tables := by
  have read := (Yields.byte short tables).map UInt8.toNat
  rwa [show n.toUInt8.toNat = n from Nat.mod_eq_of_lt short] at read

theorem Yields.reference {start slot : Nat} {look : Int → Read (Option Value)} {value : Value}
    {tables : Tables} (small : slot < 2 ^ 31)
    (found : Yields (look slot) tables [] (some value) tables) :
    Yields (Read.reference start look) tables (signedBytes 4 slot) value tables := by
  apply Yields.bind_pure (.signed32 (by omega) (by omega) tables)
  exact found.bind_nil (.pure _ _)

theorem Yields.referred? {slot : Nat} {value : Value} {tables : Tables}
    (complete : tables.slots[slot]? = some (some value)) :
    Yields (Read.referred? slot) tables [] (some value) tables := by
  intro offset rest
  have nonneg : ¬(slot : Int) < 0 := by omega
  simp only [Read.referred?, Tables.state, nonneg, if_false, Int.toNat_natCast, complete]
  rfl

theorem Yields.internedAt? {place : Nat} {value : Value} {tables : Tables}
    (present : tables.interned[place]? = some value) :
    Yields (Read.internedAt? place) tables [] (some value) tables := by
  intro offset rest
  have nonneg : ¬(place : Int) < 0 := by omega
  simp only [Read.internedAt?, Tables.state, nonneg, if_false, Int.toNat_natCast, present]
  rfl

theorem Yields.intern (value : Value) (tables : Tables) :
    Yields (Read.intern value) tables [] () (tables.intern value) :=
  fun _ _ => rfl

theorem Yields.internedString_modern {text : String}
    (short : (Text.utf8Bytes text).length < 2 ^ 31) (tables : Tables) :
    Yields (Read.internedString .modern) tables
      (signedBytes 4 (Text.utf8Bytes text).length ++ Text.utf8Bytes text) (.str text)
      (tables.intern (.str text)) := by
  refine .bind (.length short tables) (.bind_pure ((Yields.text text tables).map _) ?_)
  exact (Yields.intern (.str text) tables).bind_nil (.pure _ _)

theorem Yields.internedString_legacy {content : List UInt8} (short : content.length < 2 ^ 31)
    (tables : Tables) :
    Yields (Read.internedString .legacy) tables (signedBytes 4 content.length ++ content)
      (.bytes content) (tables.intern (.bytes content)) := by
  refine .bind (.length short tables) (.bind_pure ((Yields.payload content tables).map _) ?_)
  exact (Yields.intern (.bytes content) tables).bind_nil (.pure _ _)

theorem Yields.reserveFor_plain {first : UInt8} (plain : isFlagged first = false)
    (tables : Tables) : Yields (Read.reserveFor first) tables [] none tables := by
  rw [Read.reserveFor, if_neg (by rw [plain]; exact Bool.false_ne_true)]
  exact .pure _ _

theorem Yields.reserveFor_flagged {first : UInt8} (flagged : isFlagged first = true)
    (tables : Tables) :
    Yields (Read.reserveFor first) tables [] (some tables.slots.size) tables.reserve := by
  rw [Read.reserveFor, if_pos flagged]
  exact .map _ fun _ _ => rfl

theorem Yields.settle_none (value : Value) (tables : Tables) :
    Yields (Read.settle none value) tables [] () tables :=
  fun _ _ => rfl

theorem Yields.settle_some (slot : Nat) (value : Value) (tables : Tables) :
    Yields (Read.settle (some slot) value) tables [] () (tables.fill slot value) :=
  fun _ _ => rfl

/-! ## Units -/

theorem Yields.counter {layout : CodeLayout} {counter : UInt32}
    (fits : counter.toNat < 256 ^ storedWidth layout) (tables : Tables) :
    Yields (Read.counter layout) tables (counterBytes layout counter) counter tables := by
  have width : layout.counterWidth = storedWidth layout := by cases layout <;> rfl
  rw [Read.counter, width]
  have read := (Yields.littleEndianBytes fits tables).map Nat.toUInt32
  rwa [show counter.toNat.toUInt32 = counter from UInt32.ofNat_toNat] at read

end Read

def CodeUnit.counters (unit : CodeUnit) : Counters :=
  ⟨unit.argCount, unit.kwOnlyArgCount, unit.localCount, unit.stackSize, unit.flags⟩

theorem Read.Yields.counters {layout : CodeLayout} {unit : CodeUnit}
    (fits : CodeUnit.Fits layout unit) (tables : Tables) :
    Yields (Read.counters layout) tables (headBytes layout unit) (CodeUnit.counters unit)
      tables := by
  have counter : ∀ counter ∈ [unit.argCount, unit.localCount, unit.stackSize, unit.flags,
      unit.firstLine], Yields (Read.counter layout) tables (counterBytes layout counter) counter
        tables :=
    fun counter member => .counter (fits.counters counter member) tables
  simp only [List.forall_mem_cons] at counter
  rcases counter with ⟨argCount, localCount, stackSize, flags, -⟩
  have others : ∀ kwOnlyArgCount : UInt32, kwOnlyArgCount = unit.kwOnlyArgCount → Yields (do
      let localCount ← Read.counter layout
      let stackSize ← Read.counter layout
      let flags ← Read.counter layout
      Pure.pure { argCount := unit.argCount, kwOnlyArgCount, localCount, stackSize, flags }) tables
        (counterBytes layout unit.localCount ++ (counterBytes layout unit.stackSize ++
          counterBytes layout unit.flags)) (CodeUnit.counters unit) tables := by
    rintro _ rfl
    exact localCount.bind (stackSize.bind (flags.bind_pure (.pure _ _)))
  by_cases modern : layout = .modern
  · subst modern
    have kwOnly : Yields (Read.counter .modern) tables (counterBytes .modern unit.kwOnlyArgCount)
        unit.kwOnlyArgCount tables := .counter unit.kwOnlyArgCount.toNat_lt tables
    exact argCount.bind (kwOnly.bind (others _ rfl))
  · have head : headBytes layout unit = counterBytes layout unit.argCount ++
        ([] ++ (counterBytes layout unit.localCount ++ (counterBytes layout unit.stackSize ++
          counterBytes layout unit.flags))) := by
      rw [headBytes, if_neg modern]
    rw [head]
    apply argCount.bind
    cases layout with
    | modern => exact absurd rfl modern
    | long => exact (Yields.pure 0 _).bind (others _ (fits.kwOnly modern).symm)
    | short => exact (Yields.pure 0 _).bind (others _ (fits.kwOnly modern).symm)

theorem StoresBytes.bytes_eq {value : Value} {content : List UInt8}
    (stores : StoresBytes value content) (field : Field) : field.bytes value = .ok content := by
  cases stores <;> rfl

theorem StoresItems.items_eq {value : Value} {items : List Value}
    (stores : StoresItems value items) (field : Field) : field.items value = .ok items := by
  cases stores <;> rfl

theorem StoresText.string_eq {value : Value} {text : String} (stores : StoresText value text)
    (field : Field) : field.string value = .ok text := by
  cases stores with
  | str => rfl
  | bytes => simp only [Field.string, Value.text?, Text.ofUtf8Lossy_utf8Bytes]

theorem StoresTexts.strings_eq {value : Value} {texts : List String}
    (stores : StoresTexts value texts) (field : Field) : field.strings value = .ok texts := by
  rcases stores with ⟨items, isList, each⟩
  have mapped : items.mapM field.string = .ok texts := by
    induction each generalizing value with
    | nil => rfl
    | cons first others ih =>
        rw [List.mapM_cons, first.string_eq, ih (.tuple _)]
        rfl
  rw [Field.strings, isList.items_eq]
  exact mapped

theorem Fields.Stores.toUnit_eq {fields : Fields} {unit : CodeUnit} (stores : fields.Stores unit) :
    fields.toUnit unit.era (CodeUnit.counters unit) unit.firstLine = .ok unit := by
  rw [Fields.toUnit, stores.code.bytes_eq, stores.consts.items_eq, stores.names.strings_eq,
    stores.varnames.strings_eq, stores.freevars.strings_eq, stores.cellvars.strings_eq,
    stores.filename.string_eq, stores.name.string_eq, stores.lineTable.bytes_eq]
  cases unit
  rfl

/-- The fields that a layout stores are those of the unit, also where variables of closures are
not among them. -/
theorem Fields.Stores.ofList?_eq {layout : CodeLayout} {fields : Fields} {unit : CodeUnit}
    (stores : fields.Stores unit) (fits : CodeUnit.Fits layout unit) :
    ∃ kept : Fields, Fields.ofList? layout (fields.beforeLine layout ++ [fields.lineTable]) =
      some kept ∧ kept.Stores unit := by
  cases layout with
  | modern => exact ⟨fields, rfl, stores⟩
  | long => exact ⟨fields, rfl, stores⟩
  | short closures =>
      cases closures with
      | true => exact ⟨fields, rfl, stores⟩
      | false =>
          obtain ⟨freevars, cellvars⟩ := fits.closures rfl
          have noTexts : StoresTexts (.tuple []) [] := ⟨[], .tuple [], .nil⟩
          refine ⟨{ fields with freevars := .tuple [], cellvars := .tuple [] }, rfl, ?_⟩
          exact { stores with freevars := freevars ▸ noTexts, cellvars := cellvars ▸ noTexts }

theorem Read.unitOf_eq {layout : CodeLayout} {fields : Fields} {unit : CodeUnit}
    (stores : fields.Stores unit) (fits : CodeUnit.Fits layout unit) (start : Nat) :
    unitOf layout start (CodeUnit.counters unit) (fields.beforeLine layout ++ [fields.lineTable])
      unit.firstLine = pure (.code unit) := by
  obtain ⟨kept, listed, keptStores⟩ := stores.ofList?_eq fits
  have era : layout.era = unit.era := by
    rw [fits.era]
    by_cases modern : layout = .modern
    · rw [if_pos modern, modern]
      rfl
    · rw [if_neg modern, CodeLayout.era_of_ne_modern modern]
  rw [unitOf, listed, era]
  simp only [keptStores.toUnit_eq]

/-! ## First bytes -/

theorem isFlagged_firstByte {letter : Char} (ascii : letter.toNat < 128) (flagged : Bool) :
    isFlagged (firstByte letter flagged) = flagged := by
  have table : ∀ code < 128, isFlagged (code.toUInt8 ||| 0) = false ∧
      isFlagged (code.toUInt8 ||| 0x80) = true := by decide +kernel
  cases flagged with
  | false => exact (table _ ascii).1
  | true => exact (table _ ascii).2

theorem withoutFlag_firstByte {letter : Char} (ascii : letter.toNat < 128) (flagged : Bool) :
    withoutFlag (firstByte letter flagged) = letter.toNat.toUInt8 := by
  have table : ∀ code < 128, withoutFlag (code.toUInt8 ||| 0) = code.toUInt8 ∧
      withoutFlag (code.toUInt8 ||| 0x80) = code.toUInt8 := by decide +kernel
  cases flagged with
  | false => exact (table _ ascii).1
  | true => exact (table _ ascii).2

/-- A letter without the flag announces a tag. -/
def Names (letter : Char) (tag : Tag) : Prop :=
  letter.toNat < 128 ∧ Tag.ofByte? letter.toNat.toUInt8 = some tag

instance (letter : Char) (tag : Tag) : Decidable (Names letter tag) :=
  inferInstanceAs (Decidable (_ ∧ _))

theorem names_letter (kind : SequenceKind) : Names kind.letter (.sequence kind .wide) := by
  cases kind <;> decide

namespace Read

/-! ## The descent follows the grammar -/

/-- The reader of a part takes exactly some bytes and comes back with the part. What follows a
first byte is read whatever place and flag that byte has. -/
def Follows (layout : CodeLayout) (levels : Nat) (before : Tables) (part : Part)
    (bytes : List UInt8) (after : Tables) : Prop :=
  match part with
  | .object value => Yields (object layout levels).reader before bytes value after
  | .payload letter value => letter.toNat < 128 ∧ ∀ start first,
      withoutFlag first = letter.toNat.toUInt8 →
        Yields (content layout (object layout levels) start first) before bytes value after
  | .items values =>
      Yields ((object layout levels).repeated values.length) before bytes values after
  | .entries pairs => Yields (object layout levels).entries before bytes pairs after

theorem Follows.payload_of_tag {layout : CodeLayout} {levels : Nat} {before after : Tables}
    {letter : Char} {value : Value} {bytes : List UInt8} {tag : Tag} (names : Names letter tag)
    (yields : ∀ start first, Tag.ofByte? (withoutFlag first) = some tag →
      Yields (content layout (object layout levels) start first) before bytes value after) :
    Follows layout levels before (.payload letter value) bytes after :=
  ⟨names.1, fun start first same => yields start first (same ▸ names.2)⟩

theorem Follows.scalar {layout : CodeLayout} {levels : Nat} {before after : Tables}
    {letter : Char} {value : Value} {bytes : List UInt8} (tag : ScalarTag)
    (yields : ∀ start, Yields (Read.scalar layout.era start tag) before bytes value after)
    (names : Names letter (.scalar tag)) :
    Follows layout levels before (.payload letter value) bytes after := by
  apply Follows.payload_of_tag names
  intro start first announced
  simp only [content, announced]
  exact yields start

theorem Follows.sequence {layout : CodeLayout} {levels : Nat} {before after : Tables}
    {letter : Char} {values : List Value} {lengthBytes bytes : List UInt8} (kind : SequenceKind)
    (form : LengthForm)
    (declared : Yields (lengthOf form) before lengthBytes values.length before)
    (items : Follows layout levels before (.items values) bytes after)
    (names : Names letter (.sequence kind form)) :
    Follows layout levels before (.payload letter (kind.wrap values)) (lengthBytes ++ bytes)
      after := by
  apply Follows.payload_of_tag names
  intro start first announced
  simp only [content, announced]
  exact declared.bind (Yields.bind_pure items (.pure _ _))

theorem Follows.dict {layout : CodeLayout} {levels : Nat} {before after : Tables}
    {pairs : List (Value × Value)} {bytes : List UInt8}
    (entries : Follows layout levels before (.entries pairs) bytes after) :
    Follows layout levels before (.payload '\x7b' (.dict pairs)) bytes after := by
  have names : Names '\x7b' .dict := by decide
  apply Follows.payload_of_tag names
  intro start first announced
  simp only [content, announced]
  exact Yields.bind_pure entries (.pure _ _)

theorem Follows.unit {layout : CodeLayout} {levels : Nat} {before middle after : Tables}
    {unit : CodeUnit} {fields : Fields} {front last : List UInt8}
    (fits : CodeUnit.Fits layout unit) (stores : fields.Stores unit)
    (frontFields : Follows layout levels before (.items (fields.beforeLine layout)) front middle)
    (lastField : Follows layout levels middle (.object fields.lineTable) last after) :
    Follows layout levels before (.payload 'c' (.code unit))
      (headBytes layout unit ++ (front ++ (counterBytes layout unit.firstLine ++ last))) after := by
  have names : Names 'c' .unit := by decide
  apply Follows.payload_of_tag names
  intro start first announced
  have count : layout.fieldsBeforeLine = (fields.beforeLine layout).length := by
    obtain (_ | _) | _ | _ := layout <;> rfl
  have line : Yields (Read.counter layout) middle (counterBytes layout unit.firstLine)
      unit.firstLine middle := .counter (fits.counters _ (by simp)) middle
  simp only [content, announced, count]
  refine .bind (.counters fits before) (.bind frontFields (line.bind ?_))
  apply Yields.bind_pure lastField
  rw [unitOf_eq stores fits]
  exact .pure _ _

theorem Follows.plain {layout : CodeLayout} {levels : Nat} {before after : Tables} {letter : Char}
    {value : Value} {bytes : List UInt8}
    (payload : Follows layout levels before (.payload letter value) bytes after) :
    Follows layout (levels + 1) before (.object value) (firstByte letter false :: bytes) after := by
  rcases payload with ⟨ascii, yields⟩
  have first := withoutFlag_firstByte ascii false
  have unflagged := isFlagged_firstByte ascii false
  have small : (firstByte letter false).toNat < 256 := UInt8.toNat_lt _
  have byte := Yields.byte small before
  rw [show (firstByte letter false).toNat.toUInt8 = firstByte letter false from
    UInt8.ofNat_toNat] at byte
  refine .offset_bind fun start => byte.bind ?_
  apply (Yields.reserveFor_plain unflagged before).bind_nil
  apply (yields start _ first).bind_pure
  exact (Yields.settle_none value after).bind_nil (.pure _ _)

/-- The slot of a flagged object is reserved before what follows its first byte, and filled once
the object is complete. -/
theorem Follows.flagged {layout : CodeLayout} {levels : Nat} {before after : Tables}
    {letter : Char} {value : Value} {bytes : List UInt8}
    (payload : Follows layout levels before.reserve (.payload letter value) bytes after) :
    Follows layout (levels + 1) before (.object value) (firstByte letter true :: bytes)
      (after.fill before.slots.size value) := by
  rcases payload with ⟨ascii, yields⟩
  have first := withoutFlag_firstByte ascii true
  have flagged := isFlagged_firstByte ascii true
  have small : (firstByte letter true).toNat < 256 := UInt8.toNat_lt _
  have byte := Yields.byte small before
  rw [show (firstByte letter true).toNat.toUInt8 = firstByte letter true from
    UInt8.ofNat_toNat] at byte
  refine .offset_bind fun start => byte.bind ?_
  apply (Yields.reserveFor_flagged flagged before).bind_nil
  apply (yields start _ first).bind_pure
  exact (Yields.settle_some before.slots.size value after).bind_nil (.pure _ _)

theorem Follows.item {layout : CodeLayout} {levels : Nat} {before middle after : Tables}
    {value : Value} {values : List Value} {bytes rest : List UInt8}
    (first : Follows layout levels before (.object value) bytes middle)
    (others : Follows layout levels middle (.items values) rest after) :
    Follows layout levels before (.items (value :: values)) (bytes ++ rest) after := by
  change Yields ((object layout levels).repeated (values.length + 1)) _ _ _ _
  rw [ObjectReader.repeated]
  exact Yields.bind first (Yields.bind_pure others (.pure _ _))

theorem Follows.noEntries {layout : CodeLayout} {levels : Nat} {before after : Tables}
    {bytes : List UInt8} (marker : Follows layout levels before (.object .null) bytes after) :
    Follows layout levels before (.entries []) bytes after := by
  change Yields (object layout levels).entries _ _ _ _
  rw [entries_eq]
  exact Yields.bind_pure marker (.pure _ _)

theorem Follows.entry {layout : CodeLayout} {levels : Nat} {before middle later after : Tables}
    {key value : Value} {pairs : List (Value × Value)} {keyBytes valueBytes rest : List UInt8}
    (isKey : key ≠ .null) (keyRead : Follows layout levels before (.object key) keyBytes middle)
    (valueRead : Follows layout levels middle (.object value) valueBytes later)
    (others : Follows layout levels later (.entries pairs) rest after) :
    Follows layout levels before (.entries ((key, value) :: pairs))
      (keyBytes ++ (valueBytes ++ rest)) after := by
  have afterKey : (object layout levels).entriesAfter key = (do
      let value ← (object layout levels).reader
      let rest ← (object layout levels).entries
      Pure.pure ((key, value) :: rest)) := by
    cases key with
    | null => exact absurd rfl isKey
    | _ => rfl
  change Yields (object layout levels).entries _ _ _ _
  rw [entries_eq]
  apply Yields.bind keyRead
  rw [afterKey]
  exact Yields.bind valueRead (Yields.bind_pure others (.pure _ _))

/-- Each rule of the grammar is followed. The induction is on the derivation, for all levels and
tables at once. -/
theorem follows_of_written {layout : CodeLayout} {levels : Nat} {before after : Tables}
    {part : Part} {bytes : List UInt8} (written : Written layout levels before part bytes after) :
    Follows layout levels before part bytes after := by
  induction written with
  | plain _ ih => exact .plain ih
  | flagged _ ih => exact .flagged ih
  | null => exact .scalar .null (fun _ => .pure _ _) (by decide)
  | none => exact .scalar .none (fun _ => .pure _ _) (by decide)
  | false => exact .scalar (.bool false) (fun _ => .pure _ _) (by decide)
  | true => exact .scalar (.bool true) (fun _ => .pure _ _) (by decide)
  | stopIteration => exact .scalar .stopIteration (fun _ => .pure _ _) (by decide)
  | ellipsis => exact .scalar .ellipsis (fun _ => .pure _ _) (by decide)
  | int32 low high =>
      exact .scalar .int32 (fun _ => (Yields.signed32 low high _).map _) (by decide)
  | int64 low high =>
      exact .scalar .int64 (fun _ => (Yields.signed64 low high _).map _) (by decide)
  | long short small =>
      exact .scalar .long (fun _ => .long short small _) (by decide)
  | negativeLong short small =>
      exact .scalar .long (fun _ => .negativeLong short small _) (by decide)
  | float => exact .scalar .floatBits (fun _ => (Yields.floatBits _ _).map _) (by decide)
  | complex =>
      refine .scalar .complexBits (fun _ => ?_) (by decide)
      exact .bind (.floatBits _ _) (.bind_pure (.floatBits _ _) (.pure _ _))
  | bytes short =>
      refine .scalar .bytes (fun _ => ?_) (by decide)
      exact .bind (.length short _) ((Yields.payload _ _).map _)
  | @text _ tables letter text known short =>
      have read : ∀ start, Yields (scalar layout.era start (.text .wide)) tables
          (signedBytes 4 (Text.utf8Bytes text).length ++ Text.utf8Bytes text) (.str text) tables :=
        fun _ => .bind (.length short _) ((Yields.text text _).map _)
      simp only [List.mem_cons, List.not_mem_nil, or_false] at known
      rcases known with rfl | rfl | rfl <;> exact .scalar (.text .wide) read (by decide)
  | @shortText _ tables letter text known short =>
      have read : ∀ start, Yields (scalar layout.era start (.text .short)) tables
          ([(Text.utf8Bytes text).length.toUInt8] ++ Text.utf8Bytes text) (.str text) tables :=
        fun _ => .bind (.lengthOf_short short _) ((Yields.text text _).map _)
      simp only [List.mem_cons, List.not_mem_nil, or_false] at known
      rcases known with rfl | rfl <;> exact .scalar (.text .short) read (by decide)
  | internedText modern short =>
      refine .scalar .interned (fun _ => ?_) (by decide)
      rw [modern]
      exact .internedString_modern short _
  | internedBytes legacy short =>
      refine .scalar .interned (fun _ => ?_) (by decide)
      rw [CodeLayout.era_of_ne_modern legacy]
      exact .internedString_legacy short _
  | reference small complete =>
      refine .scalar .reference (fun _ => ?_) (by decide)
      exact .reference small (.referred? complete)
  | internedReference small present =>
      refine .scalar .internedReference (fun _ => ?_) (by decide)
      exact .reference small (.internedAt? present)
  | @sequence _ _ _ kind _ _ short _ ih =>
      exact .sequence kind .wide (.length short _) ih (names_letter kind)
  | shortTuple short _ ih =>
      exact .sequence .tuple .short (.lengthOf_short short _) ih (by decide)
  | dict _ ih => exact .dict ih
  | unit fits stores _ _ front last => exact .unit fits stores front last
  | noItems => exact Yields.pure _ _
  | item _ _ first others => exact .item first others
  | noEntries _ marker => exact .noEntries marker
  | entry isKey _ _ _ keyRead valueRead others => exact .entry isKey keyRead valueRead others

end Read

theorem storedLayout_eq (version : Version) :
    storedLayout version = CodeLayout.ofVersion version := by
  have atLeast : ∀ major minor : UInt8, version.atLeast major minor = true ↔
      major.toNat < version.major.toNat ∨
        version.major.toNat = major.toNat ∧ minor.toNat ≤ version.minor.toNat := by
    intro major minor
    simp only [Version.atLeast, GT.gt, GE.ge, UInt8.lt_iff_toNat_lt, UInt8.le_iff_toNat_le,
      Bool.or_eq_true, Bool.and_eq_true, decide_eq_true_eq, beq_iff_eq, ← UInt8.toNat_inj]
  have modern := atLeast 3 0
  have long := atLeast 2 3
  have closures := atLeast 2 1
  simp only [UInt8.reduceToNat] at modern long closures
  simp only [storedLayout, CodeLayout.ofVersion, modern, long]
  split <;> grind

/-- **Reading undoes writing.** Every encoding of a value is read as that value, wherever it
stands in a stream and whatever follows it, and nothing of what follows is taken. What it flags
and interns is added to the tables of the reader. -/
theorem read_written {version : Version} {before after : Tables} {value : Value}
    {bytes : List UInt8}
    (written : Written (storedLayout version) depthLimit before (.object value) bytes after)
    (offset : Nat) (rest : List UInt8) :
    read version (before.state ⟨offset, bytes ++ rest⟩) =
      .ok value (after.state ⟨offset + bytes.length, rest⟩) := by
  rw [storedLayout_eq] at written
  have follows := Read.follows_of_written written
  rw [read, Read.run_nil_eq]
  exact follows offset rest

theorem read_written_pair :
    read ⟨3, 4⟩ (Tables.empty.state
      ⟨0, [0x29, 2, 0xfa, 1, 0x61, 0x72, 0, 0, 0, 0] ++ [0x4e]⟩) =
      .ok (.tuple [.str "a", .str "a"])
        (Tables.state ⟨#[some (.str "a")], #[]⟩ ⟨10, [0x4e]⟩) := by
  have first : Written .modern 499 .empty (.object (.str "a")) [0xfa, 1, 0x61]
      ⟨#[some (.str "a")], #[]⟩ := by
    have payload : Written .modern 498 (Tables.reserve .empty) (.payload 'z' (.str "a"))
        [1, 0x61] (Tables.reserve .empty) := .shortText (by decide) (by decide)
    exact .flagged payload
  have second : Written .modern 499 ⟨#[some (.str "a")], #[]⟩ (.object (.str "a"))
      [0x72, 0, 0, 0, 0] ⟨#[some (.str "a")], #[]⟩ := by
    have small : 0 < 2 ^ 31 := by decide
    exact .plain (.reference small rfl)
  have pair : Written .modern 499 .empty (.payload ')' (.tuple [.str "a", .str "a"]))
      [2, 0xfa, 1, 0x61, 0x72, 0, 0, 0, 0] ⟨#[some (.str "a")], #[]⟩ :=
    .shortTuple (by decide) (.item first (.item second .noItems))
  have written : Written (storedLayout ⟨3, 4⟩) depthLimit .empty
      (.object (.tuple [.str "a", .str "a"])) [0x29, 2, 0xfa, 1, 0x61, 0x72, 0, 0, 0, 0]
      ⟨#[some (.str "a")], #[]⟩ := .plain pair
  exact read_written written 0 [0x4e]

end PycListing.Marshal
