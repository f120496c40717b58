import PycListing.Proofs.Checked.Stream
import PycListing.Proofs.LittleEndian

/-! # Requests to a cursor

A cursor is asked for bytes, or for numbers of one or two bytes, one request after the other and
whatever became of the ones before. A request takes the bytes that it needs, or stays where it is
(`PycListing.Cursor.serve_eq`), so on its way a cursor passes just what is delivered
(`PycListing.Cursor.passes_serveAll`). Nothing is lost, nothing is delivered twice, and a reader
that keeps its place in a word gives the same answers (`PycListing.Cursor.lossless_serveAll`).
-/

namespace PycListing

/-- What a cursor is asked for: some bytes, or a number of one or two bytes. -/
inductive Request where
  | bytes (count : Nat)
  | byte
  | pair
  deriving DecidableEq, Repr

/-- What a request gets. -/
inductive Delivery where
  | bytes (content : List UInt8)
  | byte (value : UInt8)
  | pair (value : UInt16)
  deriving DecidableEq, Repr

/-- What a request comes to. -/
abbrev Answer :=
  Except ShortRead Delivery

namespace Request

def needed : Request → Nat
  | .bytes count => count
  | .byte => 1
  | .pair => 2

/-- What a request makes of the bytes that it takes. -/
def deliver : Request → List UInt8 → Delivery
  | .bytes _, content => .bytes content
  | .byte, content => .byte (littleEndian content).toUInt8
  | .pair, content => .pair (littleEndian content).toUInt16

end Request

/-- The bytes that were delivered, numbers written back with the low byte first. -/
def Delivery.written : Delivery → List UInt8
  | .bytes content => content
  | .byte value => [value]
  | .pair value => littleEndianBytes 2 value.toNat

/-- The bytes that an answer delivers. -/
def Answer.written : Answer → List UInt8
  | .ok delivery => delivery.written
  | .error _ => []

namespace Request

theorem deliver_byte (value : UInt8) : byte.deliver [value] = .byte value := by
  change Delivery.byte (Nat.toUInt8 (value.toNat + 256 * 0)) = .byte value
  rw [Nat.mul_zero, Nat.add_zero, Nat.toUInt8_eq, UInt8.ofNat_toNat]

/-- What a request makes of the bytes that it needs stands for these bytes. -/
theorem written_deliver {request : Request} {content : List UInt8}
    (full : content.length = request.needed) : (request.deliver content).written = content := by
  cases request with
  | bytes count => rfl
  | byte =>
      obtain ⟨value, rfl⟩ := List.length_eq_one_iff.mp full
      rw [deliver_byte]
      rfl
  | pair =>
      have back := littleEndianBytes_littleEndian content
      have small := littleEndian_lt content
      rw [full] at back small
      have fits : littleEndian content % 2 ^ 16 = littleEndian content := Nat.mod_eq_of_lt small
      change littleEndianBytes 2 (littleEndian content).toUInt16.toNat = content
      rw [Nat.toUInt16_eq, UInt16.toNat_ofNat', fits]
      exact back

end Request

namespace Cursor

/-! ## One request -/

/-- Takes what is asked for. -/
def fetch (cursor : Cursor) : Request → Except ShortRead (Delivery × Cursor)
  | .bytes count => (cursor.take count).map fun (content, after) => (.bytes content, after)
  | .byte => (cursor.takeNumber 1).map fun (number, after) => (.byte number.toUInt8, after)
  | .pair => (cursor.takeNumber 2).map fun (number, after) => (.pair number.toUInt16, after)

/-- The answer to a request, and the cursor behind it. A failure leaves no other cursor than the
one that was asked. -/
def serve (cursor : Cursor) (request : Request) : Answer × Cursor :=
  match cursor.fetch request with
  | .ok (delivery, after) => (.ok delivery, after)
  | .error error => (.error error, cursor)

variable {cursor : Cursor} {request : Request} {bytes : List UInt8}

theorem fetch_eq (cursor : Cursor) (request : Request) :
    cursor.fetch request =
      (cursor.take request.needed).map
        fun (content, after) => (request.deliver content, after) := by
  cases request with
  | bytes count => rfl
  | byte =>
      simp only [fetch, takeNumber, Request.needed]
      cases cursor.take 1 <;> rfl
  | pair =>
      simp only [fetch, takeNumber, Request.needed]
      cases cursor.take 2 <;> rfl

/-- A request takes just the bytes that it needs, or nothing at all. -/
theorem serve_eq (cursor : Cursor) (request : Request) :
    cursor.serve request =
      if request.needed ≤ cursor.remaining then
        (.ok (request.deliver (cursor.rest.take request.needed)), cursor.advance request.needed)
      else (.error ⟨request.needed, cursor.offset⟩, cursor) := by
  rw [serve, fetch_eq, take_eq]
  by_cases enough : request.needed ≤ cursor.remaining
  · rw [if_pos enough, if_pos enough]
    rfl
  · rw [if_neg enough, if_neg enough]
    rfl

theorem serve_of_enough (enough : request.needed ≤ cursor.remaining) :
    cursor.serve request =
      (.ok (request.deliver (cursor.rest.take request.needed)), cursor.advance request.needed) := by
  rw [serve_eq, if_pos enough]

theorem serve_of_short (short : cursor.remaining < request.needed) :
    cursor.serve request = (.error ⟨request.needed, cursor.offset⟩, cursor) := by
  rw [serve_eq, if_neg (Nat.not_le.mpr short)]

theorem serve_eq_error_iff {error : ShortRead} : (cursor.serve request).1 = .error error ↔
    cursor.remaining < request.needed ∧ error = ⟨request.needed, cursor.offset⟩ := by
  by_cases enough : request.needed ≤ cursor.remaining
  · simp [serve_of_enough enough, Nat.not_lt.mpr enough]
  · have short := Nat.not_le.mp enough
    simp [serve_of_short short, short, eq_comm]

/-- A cursor passes these bytes on its way to another place. -/
structure Passes (before : Cursor) (content : List UInt8) (after : Cursor) : Prop where
  rest : content ++ after.rest = before.rest
  offset : after.offset = before.offset + content.length

theorem Passes.refl (cursor : Cursor) : cursor.Passes [] cursor :=
  ⟨rfl, rfl⟩

theorem Passes.trans {first second third : Cursor} {content more : List UInt8}
    (onward : first.Passes content second) (further : second.Passes more third) :
    first.Passes (content ++ more) third where
  rest := by rw [List.append_assoc, further.rest, onward.rest]
  offset := by rw [further.offset, onward.offset, List.length_append, Nat.add_assoc]

theorem passes_advance {count : Nat} (within : count ≤ cursor.remaining) :
    cursor.Passes (cursor.rest.take count) (cursor.advance count) where
  rest := List.take_append_drop count cursor.rest
  offset := by rw [List.length_take_of_le within, advance]

/-- A request passes what it delivers. -/
theorem passes_serve (cursor : Cursor) (request : Request) :
    cursor.Passes (cursor.serve request).1.written (cursor.serve request).2 := by
  by_cases enough : request.needed ≤ cursor.remaining
  · have full : (cursor.rest.take request.needed).length = request.needed :=
      List.length_take_of_le enough
    rw [serve_of_enough enough]
    change cursor.Passes (request.deliver _).written _
    rw [Request.written_deliver full]
    exact passes_advance enough
  · rw [serve_of_short (Nat.not_le.mp enough)]
    exact .refl cursor

/-! ## Requests in a row -/

/-- The answers to requests in their order, and the cursor behind them. -/
def serveAll (cursor : Cursor) : List Request → List Answer × Cursor
  | [] => ([], cursor)
  | request :: requests =>
    let (answer, after) := cursor.serve request
    let (answers, last) := after.serveAll requests
    (answer :: answers, last)

/-- The bytes that answers deliver, in their order. -/
def delivered (answers : List Answer) : List UInt8 :=
  answers.flatMap Answer.written

theorem passes_serveAll (cursor : Cursor) (requests : List Request) :
    cursor.Passes (delivered (cursor.serveAll requests).1) (cursor.serveAll requests).2 := by
  induction requests generalizing cursor with
  | nil => exact .refl cursor
  | cons request requests ih => exact (passes_serve cursor request).trans (ih _)

/-- A cursor stands behind the bytes that were delivered, and the others are left. -/
structure Lossless (bytes : List UInt8) (answers : List Answer) (cursor : Cursor) : Prop where
  offset_add_remaining : cursor.offset + cursor.remaining = bytes.length
  delivered : delivered answers = bytes.take cursor.offset
  rest : cursor.rest = bytes.drop cursor.offset
  fails_iff : ∀ request, (∃ error, (cursor.serve request).1 = .error error) ↔
    cursor.remaining < request.needed
  reports : ∀ request error, (cursor.serve request).1 = .error error →
    error = ⟨request.needed, cursor.offset⟩
  stays : ∀ request error, (cursor.serve request).1 = .error error →
    (cursor.serve request).2 = cursor
  /-- A request that fails is in the way of none that needs no more than what is left. -/
  retries : ∀ request smaller, cursor.remaining < request.needed →
    smaller.needed ≤ cursor.remaining →
      ∃ delivery, ((cursor.serve request).2.serve smaller).1 = .ok delivery

theorem lossless_of_passes {answers : List Answer}
    (passes : (start bytes).Passes (Cursor.delivered answers) cursor) :
    Lossless bytes answers cursor := by
  have parts : Cursor.delivered answers ++ cursor.rest = bytes := passes.rest
  have moved : cursor.offset = (Cursor.delivered answers).length :=
    passes.offset.trans (Nat.zero_add _)
  constructor
  case offset_add_remaining => rw [moved, ← parts, List.length_append, remaining]
  case delivered => rw [moved, ← parts, List.take_left]
  case rest => rw [moved, ← parts, List.drop_left]
  case fails_iff =>
    intro request
    simp only [serve_eq_error_iff, exists_and_left, exists_eq, and_true]
  case reports => exact fun request error failed => (serve_eq_error_iff.mp failed).2
  case stays =>
    intro request error failed
    rw [serve_of_short (serve_eq_error_iff.mp failed).1]
  case retries =>
    intro request smaller short enough
    rw [serve_of_short short, serve_of_enough enough]
    exact ⟨_, rfl⟩

end Cursor

/-! ## Requests within limits -/

namespace Checked

namespace Reader

/-- Takes what is asked for, if the bytes are there. -/
def fetch (reader : Reader) : Request → Except Fault (Option (Delivery × Reader))
  | .bytes count => do
    return (← reader.read count).map fun (content, after) => (.bytes content, after)
  | .byte => do
    return (← reader.byte).map fun (value, after) => (.byte value, after)
  | .pair => do
    return (← reader.pair).map fun (number, after) => (.pair number.toUInt16, after)

/-- The answer to a request, and the reader behind it. -/
def serve (reader : Reader) (request : Request) : Except Fault (Answer × Reader) := do
  match ← reader.fetch request with
  | some (delivery, after) => pure (.ok delivery, after)
  | none => pure (.error ⟨request.needed, reader.offset⟩, reader)

def serveAll (reader : Reader) : List Request → Except Fault (List Answer × Reader)
  | [] => pure ([], reader)
  | request :: requests => do
    let (answer, after) ← reader.serve request
    let (answers, last) ← after.serveAll requests
    pure (answer :: answers, last)

variable {data : List UInt8} {offset : Nat} {request : Request}

theorem fetch_of_le (small : data.length < 2 ^ 64) (within : offset ≤ data.length)
    (enough : request.needed ≤ data.length - offset) :
    fetch ⟨data, offset⟩ request =
      .ok (some (request.deliver ((data.drop offset).take request.needed),
        ⟨data, offset + request.needed⟩)) := by
  have full : ((data.drop offset).take request.needed).length = request.needed :=
    List.length_take_of_le (by rwa [List.length_drop])
  have taken := read_of_le small within enough
  -- How the bytes were cut out does not matter to what is made of them.
  generalize (data.drop offset).take request.needed = content at full taken ⊢
  cases request with
  | bytes count =>
      change read ⟨data, offset⟩ count = _ at taken
      rw [fetch, taken]
      rfl
  | byte =>
      obtain ⟨value, rfl⟩ := List.length_eq_one_iff.mp full
      change read ⟨data, offset⟩ 1 = _ at taken
      rw [fetch, byte, taken, Request.deliver_byte]
      rfl
  | pair =>
      obtain ⟨low, high, rfl⟩ := List.length_eq_two.mp full
      change read ⟨data, offset⟩ 2 = _ at taken
      rw [fetch, pair, taken]
      rfl

theorem fetch_of_short (short : data.length - offset < request.needed) :
    fetch ⟨data, offset⟩ request = .ok none := by
  cases request with
  | bytes count =>
      have none : read ⟨data, offset⟩ count = _ := read_eq_none short
      rw [fetch, none]
      rfl
  | byte =>
      rw [fetch, byte_eq_none short]
      rfl
  | pair =>
      rw [fetch, pair_eq_none short]
      rfl

/-- A reader and a cursor at one place give the same answer, and come to one place again. -/
theorem serve_eq (small : data.length < 2 ^ 64) (within : offset ≤ data.length)
    (request : Request) :
    ∃ answer stop, stop ≤ data.length ∧
      Cursor.serve ⟨offset, data.drop offset⟩ request = (answer, ⟨stop, data.drop stop⟩) ∧
      serve ⟨data, offset⟩ request = .ok (answer, ⟨data, stop⟩) := by
  have left : Cursor.remaining ⟨offset, data.drop offset⟩ = data.length - offset :=
    List.length_drop
  by_cases enough : request.needed ≤ data.length - offset
  · have served := Cursor.serve_of_enough (left.symm ▸ enough)
    rw [Cursor.advance, List.drop_drop] at served
    refine ⟨_, offset + request.needed, by omega, served, ?_⟩
    rw [serve, fetch_of_le small within enough]
    rfl
  · have short := Nat.not_le.mp enough
    refine ⟨_, offset, within, Cursor.serve_of_short (left.symm ▸ short), ?_⟩
    rw [serve, fetch_of_short short]
    rfl

/-- No request stops a reader of bytes that an address can be kept for in a word. -/
theorem serveAll_eq (small : data.length < 2 ^ 64) (within : offset ≤ data.length)
    (requests : List Request) :
    serveAll ⟨data, offset⟩ requests =
      .ok ((Cursor.serveAll ⟨offset, data.drop offset⟩ requests).1,
        ⟨data, (Cursor.serveAll ⟨offset, data.drop offset⟩ requests).2.offset⟩) := by
  induction requests generalizing offset with
  | nil => rfl
  | cons request requests ih =>
      obtain ⟨answer, stop, inside, served, same⟩ := serve_eq small within request
      rw [serveAll, same, bind_ok]
      dsimp only
      rw [ih inside, bind_ok, Cursor.serveAll, served]
      rfl

end Reader

end Checked

namespace Cursor

/-- **Requests lose no byte and deliver none twice.** Whatever is asked for, and however often
there is not enough left, the answers deliver the bytes up to the cursor's place in their order,
and the next request fails only for want of bytes, and changes nothing then. A reader that keeps
its place in a word of 64 bits, and the bytes as a whole, gives the same answers at the same place;
none of its sums leaves the word, and none of its slices the bytes. -/
theorem lossless_serveAll (bytes : List UInt8) (requests : List Request) :
    Lossless bytes ((start bytes).serveAll requests).1 ((start bytes).serveAll requests).2 ∧
      (bytes.length < 2 ^ 64 →
        Checked.Reader.serveAll ⟨bytes, 0⟩ requests =
          .ok (((start bytes).serveAll requests).1,
            ⟨bytes, ((start bytes).serveAll requests).2.offset⟩)) := by
  constructor
  · exact lossless_of_passes (passes_serveAll (start bytes) requests)
  · intro small
    exact Checked.Reader.serveAll_eq small (Nat.zero_le _) requests

/-- Requests that ask for too much stand between the others. -/
theorem lossless_serveAll_interleaved :
    (start [100, 1, 2, 83]).serveAll
        [.byte, .bytes (2 ^ 64 - 1), .pair, .pair, .bytes 0, .byte, .byte] =
      ([.ok (.byte 100), .error ⟨2 ^ 64 - 1, 1⟩, .ok (.pair 513), .error ⟨2, 3⟩, .ok (.bytes []),
        .ok (.byte 83), .error ⟨1, 4⟩], ⟨4, []⟩) ∧
    Checked.Reader.serveAll ⟨[100, 1, 2, 83], 0⟩
        [.byte, .bytes (2 ^ 64 - 1), .pair, .pair, .bytes 0, .byte, .byte] =
      .ok ([.ok (.byte 100), .error ⟨2 ^ 64 - 1, 1⟩, .ok (.pair 513), .error ⟨2, 3⟩,
        .ok (.bytes []), .ok (.byte 83), .error ⟨1, 4⟩], ⟨[100, 1, 2, 83], 4⟩) := by
  constructor
  · rfl
  · exact (lossless_serveAll [100, 1, 2, 83]
      [.byte, .bytes (2 ^ 64 - 1), .pair, .pair, .bytes 0, .byte, .byte]).2 (by decide)

end Cursor

end PycListing
