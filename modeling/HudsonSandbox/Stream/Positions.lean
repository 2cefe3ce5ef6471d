import HudsonSandbox.Stream.Session

/-!
# Where a client stands

The bytes a client has are what one attempt captured up to the offsets of its cursor; an event that is
on its way leads from one such position to the next. Nothing a guest, a publication or another
connection does moves a position, since what was captured only grows at its end.
-/

namespace HudsonSandbox.Stream
open Checked GuestModel LiveOutput Output Text

variable {c : Codecs} {r r' : Recording} {index : Fin 2} {owner : OutputOwner} {cursor : Cursor}

/-! ### Cursors -/

theorem offset_advance {next : ℕ} (small : next < 2 ^ 64) (other : Fin 2) :
    (cursor.advance index next).offset other = if other = index then next else cursor.offset other := by
  have word : (UInt64.ofNat next).toNat = next := UInt64.toNat_ofNat_of_lt small
  match index, other with
  | 0, 0 => exact word
  | 0, 1 => rfl
  | 1, 0 => rfl
  | 1, 1 => exact word

theorem advance_self : cursor.advance index (cursor.offset index) = cursor := by
  match index with
  | 0 => simp [Cursor.advance, Cursor.offset]
  | 1 => simp [Cursor.advance, Cursor.offset]

theorem advance_bound {next : ℕ} : (cursor.advance index next).version = cursor.version ∧
    (cursor.advance index next).project = cursor.project ∧ (cursor.advance index next).operation = cursor.operation ∧
      (cursor.advance index next).binding = cursor.binding := by
  unfold Cursor.advance
  split <;> exact ⟨rfl, rfl, rfl, rfl⟩

/-- A cursor of this owner's output. -/
structure Bound (c : Codecs) (owner : OutputOwner) (cursor : Cursor) : Prop where
  version : cursor.version = 1
  project : cursor.project = owner.projectId
  operation : cursor.operation = owner.operationId
  binding : cursor.binding = c.binding owner

theorem Bound.new (owner : OutputOwner) : Bound c owner (.new c.binding owner) := ⟨rfl, rfl, rfl, rfl⟩

theorem Bound.advance (bound : Bound c owner cursor) (index : Fin 2) (next : ℕ) : Bound c owner (cursor.advance index next) := by
  obtain ⟨version, project, operation, binding⟩ := @advance_bound index cursor next
  exact ⟨version.trans bound.version, project.trans bound.project, operation.trans bound.operation,
    binding.trans bound.binding⟩

/-- `serde_json` reads back what it wrote. -/
def Codecs.Reads (c : Codecs) : Prop := ∀ cursor : Cursor, c.json cursor.bytes = some cursor.raw

/-- No two owners have the same digest. -/
def Codecs.Apart (c : Codecs) : Prop :=
  ∀ owner ∈ c.owners, ∀ owner' ∈ c.owners,
    Cursor.hexEncode (c.binding owner) = Cursor.hexEncode (c.binding owner') → owner = owner'

theorem decode_cursor (reads : c.Reads) : (Base64.decode Base64.urlSafe false cursor.encode.toList).bind c.json = some cursor.raw := by
  have text : cursor.encode.toList = Base64.encode Base64.urlSafe false cursor.bytes := String.toList_ofList
  rw [text, Base64.decode_encode Base64.urlSafe_lawful]
  exact reads cursor

/-- Only the owner it was made for gets a cursor back. -/
theorem parse_encode (reads : c.Reads) (apart : c.Apart) {owner' : OutputOwner} {found : Cursor} (bound : Bound c owner cursor)
    (known : owner ∈ c.owners) (known' : owner' ∈ c.owners)
    (h : Cursor.parse c.binding c.json cursor.encode owner' = .ok found) : owner' = owner ∧ found = cursor := by
  obtain ⟨_, h⟩ := seq_ok.mp h
  obtain ⟨raw, read, h⟩ := bind_ok.mp h
  rw [decode_cursor reads] at read
  obtain rfl := Option.some.inj (okOr_ok.mp read)
  obtain ⟨_, h⟩ := seq_ok.mp h
  obtain ⟨same, h⟩ := seq_ok.mp h
  have digest : Cursor.hexEncode (c.binding owner) = Cursor.hexEncode (c.binding owner') := by
    rw [← bound.binding]
    exact ensure_ok.mp same
  obtain rfl := apart owner known owner' known' digest
  obtain rfl := pure_ok.mp h
  refine ⟨rfl, ?_⟩
  rw [← bound.binding]
  rfl

/-! ### Chunks -/

/-- A loaded chunk shows a part of what was captured, and its end only once that is final. -/
structure Chunk.Of (r : Recording) (index : Fin 2) (chunk : Chunk) : Prop where
  bytes : chunk.bytes <+: (r.captured index).drop chunk.offset
  start : chunk.offset ≤ r.stored index
  next : chunk.next = chunk.offset + chunk.bytes.length
  final : chunk.complete = true → finalReceipt r.receipt ∧ chunk.stats = selected index r.receipt ∧
    (chunk.atEnd = true → chunk.next = r.stored index)

theorem Chunk.Of.next_le {chunk : Chunk} (of : chunk.Of r index) : chunk.next ≤ r.stored index := by
  have short := of.bytes.length_le
  have start := of.start
  have next := of.next
  rw [List.length_drop, Recording.captured_length] at short
  omega

theorem Chunk.Of.later {chunk : Chunk} (of : chunk.Of r index) (later : r.Extends r') : chunk.Of r' index := by
  refine ⟨of.bytes.trans (later.captured_mono.drop _), of.start.trans later.stored_le, of.next, fun complete => ?_⟩
  obtain ⟨final, stats, ended⟩ := of.final complete
  rw [later.final final, later.stored_eq final]
  exact ⟨final, stats, ended⟩

theorem stored_small : r.stored index < 2 ^ 64 := by
  have total := r.valid.stored
  have limit := r.valid.limit.2
  unfold GuestModel.MAX_OUTPUT at limit
  unfold Recording.stored selected
  split <;> omega

/-- The references describe what the command's guest has counted. -/
structure Describes (r : Recording) (refs : OutputRefs) : Prop where
  final : finalReceipt r.receipt
  stats : ∀ index : Fin 2, Host.agrees (if index = out then refs.stdout else refs.stderr).plan (selected index r.receipt)

theorem Describes.later {refs : OutputRefs} (describes : Describes r refs) (later : r.Extends r') : Describes r' refs := by
  have same := later.final describes.final
  constructor
  · rw [same]
    exact describes.final
  · rw [same]
    exact describes.stats

/-- What the bytes of a live chunk are, for a guest that was there when they were read. -/
structure Fetched (r : Recording) (index : Fin 2) (offset : ℕ) (chunk : OutputChunk) : Prop where
  shown : ∃ before : Recording, before.Extends r ∧ before.Shows index chunk
  offset : chunk.offset = offset

theorem Fetched.later {offset : ℕ} {chunk : OutputChunk} (fetched : Fetched r index offset chunk) (later : r.Extends r') :
    Fetched r' index offset chunk := by
  obtain ⟨⟨before, extends_, shown⟩, start⟩ := fetched
  exact ⟨⟨before, extends_.trans later, shown⟩, start⟩

theorem load_ok {scopes : Codec LiveOutputScope (List UInt8)} {scope : LiveOutputScope} {simulated : Bool} {offset : ℕ}
    {sent received checked : ℤ} {reply : LiveOutputRequest → Option LiveOutputObservation} {chunk : Chunk}
    (h : load scopes scope simulated index offset sent received checked reply = .ok chunk) :
    ∃ request answer wire receipt, reply request = some answer ∧ answer.chunk = some wire ∧ answer.receipt = some receipt ∧
      chunk.bytes = wire.data ∧ chunk.offset = offset ∧ chunk.next = wire.nextOffset ∧ chunk.atEnd = wire.atEnd ∧
      chunk.complete = wire.complete ∧ chunk.stats = selected index receipt := by
  obtain ⟨request, _, h⟩ := bind_ok.mp h
  obtain ⟨answer, replied, h⟩ := bind_ok.mp h
  obtain ⟨_, h⟩ := seq_ok.mp h
  obtain ⟨_, _, h⟩ := bind_ok.mp h
  obtain ⟨receipt, found, h⟩ := bind_ok.mp h
  obtain ⟨wire, sent, h⟩ := bind_ok.mp h
  obtain ⟨_, h⟩ := seq_ok.mp h
  obtain rfl := pure_ok.mp h
  exact ⟨request, answer, wire, receipt, okOr_ok.mp replied, okOr_ok.mp sent, okOr_ok.mp found, rfl, rfl, rfl, rfl, rfl, rfl⟩

/-- A live chunk is what the guest showed, with the counters of its receipt afterwards. -/
theorem Fetched.loaded {offset : ℕ} {wire : OutputChunk} {chunk : Chunk} (fetched : Fetched r index offset wire)
    (bytes : chunk.bytes = wire.data) (start : chunk.offset = offset) (next : chunk.next = wire.nextOffset)
    (atEnd : chunk.atEnd = wire.atEnd) (complete : chunk.complete = wire.complete)
    (stats : chunk.stats = selected index r.receipt) : chunk.Of r index := by
  obtain ⟨⟨before, later, shown⟩, at_⟩ := fetched
  have same : chunk.offset = wire.offset := start.trans at_.symm
  refine ⟨?_, ?_, ?_, fun ended => ?_⟩
  · rw [bytes, same]
    exact shown.data.trans (later.captured_mono.drop _)
  · rw [same]
    exact shown.start.trans later.stored_le
  · rw [next, same, bytes]
    exact shown.next
  · have final := shown.final (complete.symm.trans ended)
    refine ⟨?_, stats, fun last => ?_⟩
    · rw [later.final final]
      exact final
    · rw [next, shown.last (atEnd.symm.trans last), later.stored_eq final]

/-- An archived chunk is a part of the object, which holds all that was captured. -/
theorem loadArchived_ok {view : Archived} {found : Except Failure OutputOwner} {offset : ℕ} {now : ℤ}
    {fetched : Except Artifacts.Error (List UInt8)} {chunk : Chunk} (described : ∀ refs ∈ view.references, Describes r refs)
    (held : ∀ bytes, fetched = .ok bytes → bytes = r.captured index)
    (h : loadArchived view found index offset now fetched = .ok chunk) : chunk.Of r index ∧ chunk.offset = offset := by
  obtain ⟨refs, named, h⟩ := bind_ok.mp h
  obtain ⟨_, _, h⟩ := bind_ok.mp h
  obtain ⟨start, h⟩ := seq_ok.mp h
  obtain ⟨result, read, h⟩ := bind_ok.mp h
  obtain ⟨_, h⟩ := seq_ok.mp h
  obtain ⟨_, _, h⟩ := bind_ok.mp h
  obtain rfl := pure_ok.mp h
  obtain ⟨_, read⟩ := seq_ok.mp (mapError_ok.mp read)
  obtain ⟨_, read⟩ := seq_ok.mp read
  obtain ⟨_, read⟩ := seq_ok.mp read
  obtain ⟨bytes, whole, read⟩ := bind_ok.mp read
  obtain rfl := pure_ok.mp read
  obtain rfl := held bytes (mapError_ok.mp whole)
  obtain ⟨final, stats⟩ := described refs (okOr_ok.mp named)
  obtain ⟨size, seen, truncated⟩ := stats index
  have start := ensure_ok.mp start
  have inside : offset ≤ r.stored index := start.trans (Nat.le_of_eq size)
  have length := @Recording.captured_length r index
  refine ⟨⟨List.take_prefix _ _, inside, ?_, fun _ => ⟨final, ?_, fun ended => ?_⟩⟩, rfl⟩
  · dsimp only
    rw [List.length_take, List.length_drop, length]
    omega
  · dsimp only
    rw [size, seen, truncated]
  · exact (of_decide_eq_true ended).trans length

/-! ### Events on their way -/

/-- An output event leads from a cursor past its bytes. -/
structure Carries (c : Codecs) (r : Recording) (before after : Cursor) (frame : Frame) : Prop where
  event : frame.event = "output"
  id : frame.id = after.encode
  chunk : ∃ index chunk, chunk.Of r index ∧ chunk.offset = before.offset index ∧
    after = before.advance index chunk.next ∧ c.events.encode (outputEvent index chunk) = some frame.data

def ending (r : Recording) (simulated : Bool) : Client.EndEvent :=
  { reason := "complete", stdout := selected out r.receipt, stderr := selected err r.receipt, simulated, guestReported := true }

/-- Both streams have been read to their ends. -/
def AllRead (r : Recording) (cursor : Cursor) : Prop :=
  finalReceipt r.receipt ∧ ∀ index, cursor.offset index = r.stored index

structure Closes (c : Codecs) (r : Recording) (cursor : Cursor) (frame : Frame) : Prop where
  event : frame.event = "end"
  id : frame.id = cursor.encode
  read : AllRead r cursor
  data : ∃ simulated, c.ends.encode (ending r simulated) = some frame.data

inductive Item.Moves (c : Codecs) (r : Recording) : Cursor → Item → Cursor → Prop
  | output {before after : Cursor} {frame : Frame} : Carries c r before after frame → Moves c r before (.frame frame) after
  | closes {cursor : Cursor} {frame : Frame} : Closes c r cursor frame → Moves c r cursor (.frame frame) cursor
  | gap {cursor : Cursor} {failure : Failure} : Moves c r cursor (.gap failure) cursor
  | error {cursor : Cursor} {failure : Failure} : Moves c r cursor (.error failure) cursor

theorem AllRead.later (all : AllRead r cursor) (later : r.Extends r') : AllRead r' cursor := by
  refine ⟨?_, fun index => ?_⟩
  · rw [later.final all.1]
    exact all.1
  · rw [later.stored_eq all.1]
    exact all.2 index

theorem Item.Moves.later {before after : Cursor} {item : Item} (moves : item.Moves c r before after) (later : r.Extends r') :
    item.Moves c r' before after := by
  cases moves with
  | output carries =>
    obtain ⟨event, id, index, chunk, of, rest⟩ := carries
    exact .output ⟨event, id, index, chunk, of.later later, rest⟩
  | closes closes =>
    obtain ⟨event, id, all, simulated, data⟩ := closes
    refine .closes ⟨event, id, all.later later, simulated, ?_⟩
    rw [ending, later.final all.1]
    exact data
  | gap => exact .gap
  | error => exact .error

/-- What stands in the queue, or waits for it. -/
def Leads (c : Codecs) (r : Recording) (item : Option Item) (before after : Cursor) : Prop :=
  match item with
  | none => after = before
  | some item => item.Moves c r before after

theorem Leads.later {item : Option Item} {before after : Cursor} (leads : Leads c r item before after) (later : r.Extends r') :
    Leads c r' item before after := by
  cases item with
  | none => exact leads
  | some item => exact Item.Moves.later leads later

/-! ### Positions -/

/-- The client has exactly what was captured before the cursor. -/
structure Position (c : Codecs) (owner : OutputOwner) (r : Recording) (cursor : Cursor) (got : Fin 2 → List UInt8) : Prop where
  bound : Bound c owner cursor
  within : ∀ index, cursor.offset index ≤ r.stored index
  got : ∀ index, got index = (r.captured index).take (cursor.offset index)

theorem Position.later {got : Fin 2 → List UInt8} (position : Position c owner r cursor got) (later : r.Extends r') :
    Position c owner r' cursor got := by
  refine ⟨position.bound, fun index => (position.within index).trans later.stored_le, fun index => ?_⟩
  rw [position.got index]
  obtain ⟨rest, same⟩ := @Recording.Extends.captured_mono r r' index later
  rw [← same, List.take_append_of_le_length]
  rw [Recording.captured_length]
  exact position.within index

theorem Position.start (owner : OutputOwner) (r : Recording) : Position c owner r (.new c.binding owner) fun _ => [] := by
  refine ⟨.new owner, fun index => ?_, fun index => ?_⟩
  · match index with
    | 0 => exact Nat.zero_le _
    | 1 => exact Nat.zero_le _
  · match index with
    | 0 => rfl
    | 1 => rfl

/-- Past an output event the client has its bytes too. -/
theorem Position.append {got : Fin 2 → List UInt8} {chunk : Chunk} (position : Position c owner r cursor got)
    (of : chunk.Of r index) (start : chunk.offset = cursor.offset index) :
    Position c owner r (cursor.advance index chunk.next) (Function.update got index (got index ++ chunk.bytes)) := by
  have small : chunk.next < 2 ^ 64 := of.next_le.trans_lt stored_small
  refine ⟨position.bound.advance index chunk.next, fun other => ?_, fun other => ?_⟩
  · rw [offset_advance small]
    split
    next same =>
      rw [same]
      exact of.next_le
    next => exact position.within other
  · rw [offset_advance small]
    by_cases same : other = index
    · rw [if_pos same, same, Function.update_self, position.got index, of.next, List.take_add, start,
        ← List.prefix_iff_eq_take.mp (start ▸ of.bytes)]
    · rw [if_neg same, Function.update_of_ne same]
      exact position.got other

end HudsonSandbox.Stream
