import HudsonSandbox.Library.Base64
import HudsonSandbox.Protocol.LiveOutput

/-!
# The stream producer

One turn of the API's output stream over a live command: the chunk is loaded from the host's
reply, the cursor moves past its bytes, and the turn may become an output event.
-/

namespace HudsonSandbox.Stream
open Checked GuestModel Command LiveOutput Text

inductive Problem where
  | unavailable | internal | outputNotReady | outputMissing | outputExpired | outputCorrupt
  deriving DecidableEq, Repr

/-- The frames of one stream are numbered by the bytes consumed so far of both outputs. -/
structure Cursor where
  version : UInt32
  project : ProjectId
  operation : OperationId
  binding : Digest
  offsets : UInt64 × UInt64
  deriving DecidableEq

namespace Cursor

/-- `hex::encode` of the binding digest. -/
def hexEncode (digest : Digest) : List Char :=
  digest.toList.flatMap fun byte =>
    [Nat.digitChar (byte.toNat / 16), Nat.digitChar (byte.toNat % 16)]

/-- The compact JSON of the record, fields in declaration order. -/
def json (self : Cursor) : List Char :=
  object
    [ member "version" (decimal self.version.toNat),
      member "project" (quoted self.project.display),
      member "operation" (quoted self.operation.display),
      member "binding" (quoted (hexEncode self.binding)),
      member "offsets" (array [decimal self.offsets.1.toNat, decimal self.offsets.2.toNat]) ]

/-- The record is ASCII, so each character is the byte that stands for it. -/
def encode (self : Cursor) : String :=
  String.ofList (Base64.encode Base64.urlSafe false (self.json.map fun c => UInt8.ofNat c.toNat))

def offset (self : Cursor) (index : Fin 2) : ℕ :=
  if index = 0 then self.offsets.1.toNat else self.offsets.2.toNat

def advance (self : Cursor) (index : Fin 2) (next : ℕ) : Cursor :=
  if index = 0 then { self with offsets := (UInt64.ofNat next, self.offsets.2) }
  else { self with offsets := (self.offsets.1, UInt64.ofNat next) }

end Cursor

structure Chunk where
  bytes : List UInt8
  offset : ℕ
  next : ℕ
  atEnd : Bool
  complete : Bool
  stats : Output
  simulated : Bool
  expires : Int
  deriving DecidableEq

structure OutputEvent where
  stream : String
  offset : ℕ
  nextOffset : ℕ
  dataBase64 : String
  atEnd : Bool
  complete : Bool
  seen : ℕ
  stored : ℕ
  truncated : Bool
  simulated : Bool
  guestReported : Bool
  deriving DecidableEq

/-- A server-sent event before framing: its name, its id and its data. -/
structure Frame where
  event : String
  id : String
  data : String
  deriving DecidableEq

def name (index : Fin 2) : LiveOutput.Stream := if index = 0 then .stdout else .stderr

def selected (index : Fin 2) (receipt : Receipt) : Output :=
  if index = 0 then receipt.stdout else receipt.stderr

section Load
variable (scopes : Codec LiveOutputScope (List UInt8))

def liveRequest (scope : LiveOutputScope) (index : Fin 2) (offset : ℕ) (now : Int) :
    Except Problem LiveOutputRequest := do
  let scopeJson ← okOr (scopes.encode scope) .internal
  pure
    { scopeJson
      output := some ⟨scope.owner.operationId, (name index).toInt, offset, MAX_CHUNK⟩
      expiresUnixMs := now + 15000 }

/-- The live branch of `load`. The three clock readings are those of the request, of the
freshness check and of the second decoding; `reply` is what the host's reader answered. -/
def load (scope : LiveOutputScope) (simulated : Bool) (index : Fin 2) (offset : ℕ)
    (sent received checked : Int) (reply : LiveOutputRequest → Option LiveOutputObservation) :
    Except Problem Chunk := do
  let request ← liveRequest scopes scope index offset sent
  let reply ← okOr (reply request) .unavailable
  ensure (¬(reply.request ≠ some request ∨ reply.hostId ≠ scope.owner.hostId ∨
      reply.supervisorEpoch ≠ scope.owner.hostEpoch ∨ reply.simulated ≠ simulated ∨
      10000 < (reply.observedUnixMs - received).natAbs)) .outputCorrupt
  let (_, read) ← (decode scopes request checked).mapError fun _ => .unavailable
  let receipt ← okOr reply.receipt .outputCorrupt
  let chunk ← okOr reply.chunk .outputCorrupt
  (validateChunk scope read
    { digest := scope.commandDigest
      context := some ⟨scope.owner.allocationId, scope.owner.generation, scope.owner.bootId⟩
      deadlineUnixMs := scope.deadlineUnixMs
      outputLimit := scope.outputLimit
      notStarted := false
      receipt := none } chunk receipt).mapError fun _ => .outputCorrupt
  pure
    { bytes := chunk.data
      offset
      next := chunk.nextOffset
      atEnd := chunk.atEnd
      complete := chunk.complete
      stats := selected index receipt
      simulated
      expires := request.expiresUnixMs }

end Load

section Produce
variable (events : Codec OutputEvent String)

def outputEvent (index : Fin 2) (chunk : Chunk) : OutputEvent :=
  { stream := if index = 0 then "stdout" else "stderr"
    offset := chunk.offset
    nextOffset := chunk.next
    dataBase64 := String.ofList (Base64.encode Base64.standard true chunk.bytes)
    atEnd := chunk.atEnd
    complete := chunk.complete
    seen := chunk.stats.seen
    stored := chunk.stats.stored
    truncated := chunk.stats.truncated
    simulated := chunk.simulated
    guestReported := true }

/-- The part of a turn after its chunk was loaded: the moved cursor, whether this output is
done, and the event, if the turn has one. -/
def produce (cursor : Cursor) (index : Fin 2) (chunk : Chunk) :
    Except Problem (Cursor × Bool × Option Frame) := do
  let done := chunk.complete && chunk.atEnd
  let cursor := cursor.advance index chunk.next
  if chunk.bytes ≠ [] ∨ done = true then
    let data ← okOr (events.encode (outputEvent index chunk)) .internal
    pure (cursor, done, some { event := "output", id := cursor.encode, data })
  else pure (cursor, done, none)

end Produce

/-! ### The cursor fits its header -/

theorem hexEncode_length (digest : Digest) : (Cursor.hexEncode digest).length = 64 := by
  simp [Cursor.hexEncode, List.length_flatMap]

theorem display_length {resource : Resource} (id : TypedId resource) :
    id.display.length ≤ 40 := by
  have digits : id.uuid.hexDigits.length = 32 := by
    rw [Uuid.hexDigits, List.length_map, List.length_range]
  simp only [TypedId.display, Uuid.hyphenated, List.length_append, List.length_cons,
    List.length_take, List.length_drop, digits]
  cases resource <;> decide

theorem cursor_json_length (cursor : Cursor) : cursor.json.length ≤ 300 := by
  have version := decimal_length (k := 10) (by omega)
    (show cursor.version.toNat < 10 ^ 10 by have := cursor.version.toNat_lt; omega)
  have first := decimal_length (k := 20) (by omega)
    (show cursor.offsets.1.toNat < 10 ^ 20 by have := cursor.offsets.1.toNat_lt; omega)
  have second := decimal_length (k := 20) (by omega)
    (show cursor.offsets.2.toNat < 10 ^ 20 by have := cursor.offsets.2.toNat_lt; omega)
  have project := display_length cursor.project
  have operation := display_length cursor.operation
  have offsets := array_length [decimal cursor.offsets.1.toNat, decimal cursor.offsets.2.toNat]
  have whole := object_length
    [ member "version" (decimal cursor.version.toNat),
      member "project" (quoted cursor.project.display),
      member "operation" (quoted cursor.operation.display),
      member "binding" (quoted (Cursor.hexEncode cursor.binding)),
      member "offsets" (array [decimal cursor.offsets.1.toNat, decimal cursor.offsets.2.toNat]) ]
  simp only [List.map_cons, List.map_nil, List.sum_cons, List.sum_nil, member_length,
    quoted_length, hexEncode_length, show "version".length = 7 from rfl,
    show "project".length = 7 from rfl, show "operation".length = 9 from rfl,
    show "binding".length = 7 from rfl, show "offsets".length = 7 from rfl] at whole offsets
  refine whole.trans ?_
  omega

theorem cursor_encode_printable (cursor : Cursor) : Printable cursor.encode.toList := by
  intro c member
  rw [Cursor.encode, String.toList_ofList] at member
  obtain ⟨low, high⟩ := Base64.encode_printable Base64.urlSafe_lawful _ c member
  exact ⟨Nat.le_of_lt low, high⟩

theorem cursor_encode_size (cursor : Cursor) : cursor.encode.utf8ByteSize ≤ 2048 := by
  have printable := cursor_encode_printable cursor
  rw [Cursor.encode, String.toList_ofList] at printable
  have bound := cursor_json_length cursor
  rw [Cursor.encode, utf8ByteSize_printable printable, Base64.encode_length, List.length_map]
  omega

theorem cursor_encode_nonempty (cursor : Cursor) : cursor.encode ≠ "" := by
  intro empty
  have zero : cursor.encode.toList.length = 0 := by rw [empty]; rfl
  rw [Cursor.encode, String.toList_ofList, Base64.encode_length, List.length_map] at zero
  have opening : 0 < cursor.json.length := List.length_pos_of_mem List.mem_cons_self
  omega

end HudsonSandbox.Stream
