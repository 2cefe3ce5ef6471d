import HudsonSandbox.Stream.Producer

/-!
# The stream client

The client's decoder of one event, and when it accepts the events of a live command. A chunk is
read before the receipt that comes with it, so a running command may have stored more bytes in
between; `StaleEnd` is the one shape in which the two disagree about the end.
-/

namespace HudsonSandbox.Stream
open Checked GuestModel Command LiveOutput Text

namespace Client

inductive Error where
  | transport
  | protocol
  deriving DecidableEq, Repr

structure EndEvent where
  reason : String
  stdout : Output
  stderr : Output
  simulated : Bool
  guestReported : Bool
  deriving DecidableEq

structure StreamProblemEvent where
  code : String
  deriving DecidableEq

inductive Event where
  | output (cursor : String) (data : OutputEvent)
  | ended (cursor : String) (data : EndEvent)
  | gap (data : StreamProblemEvent)
  | error (data : StreamProblemEvent)
  deriving DecidableEq

def cursorText (id : Option String) : Except Error String :=
  okOr (id.filter fun s => s ≠ "" ∧ s.utf8ByteSize ≤ 2048 ∧ s.toList.any isControl = false)
    .protocol

section Decode
variable (events : Codec OutputEvent String) (ends : Codec EndEvent String)
  (problems : Codec StreamProblemEvent String)

def decodeOutput (id : Option String) (data : String) : Except Error Event := do
  let data ← okOr (events.decode data) .protocol
  let bytes ← okOr (Base64.decode Base64.standard true data.dataBase64.toList) .protocol
  ensure (¬(¬(data.stream = "stdout" ∨ data.stream = "stderr") ∨ 32768 < bytes.length ∨
      checkedAdd 64 data.offset bytes.length ≠ some data.nextOffset ∨
      data.stored < data.nextOffset ∨ 10485760 < data.stored ∨ data.seen < data.stored ∨
      data.atEnd ≠ decide (data.nextOffset = data.stored) ∨ data.guestReported = false ∨
      data.truncated ≠ decide (data.stored < data.seen))) .protocol
  let cursor ← cursorText id
  pure (.output cursor data)

def decodeEnd (id : Option String) (data : String) : Except Error Event := do
  let data ← okOr (ends.decode data) .protocol
  ensure (data.reason = "complete" ∧ data.guestReported = true ∧
    ∀ s ∈ [data.stdout, data.stderr], s.stored ≤ s.seen ∧ s.stored ≤ 10485760 ∧
      s.truncated = decide (s.stored < s.seen)) .protocol
  let cursor ← cursorText id
  pure (.ended cursor data)

def decodeProblem (kind : String) (id : Option String) (data : String) : Except Error Event := do
  ensure (id.isNone) .protocol
  let data ← okOr (problems.decode data) .protocol
  pure (if kind = "gap" then .gap data else .error data)

def decode (kind : String) (id : Option String) (data : String) : Except Error Event :=
  if kind = "output" then decodeOutput events id data
  else if kind = "end" then decodeEnd ends id data
  else if kind = "gap" ∨ kind = "error" then decodeProblem problems kind id data
  else .error .protocol

end Decode

theorem cursorText_encode (cursor : Cursor) : cursorText (some cursor.encode) = .ok cursor.encode := by
  have clean := isControl_printable (cursor_encode_printable cursor)
  simp only [cursorText, okOr_ok, Option.filter_eq_some_iff]
  exact ⟨trivial, by simpa [clean] using ⟨cursor_encode_nonempty cursor, cursor_encode_size cursor⟩⟩

end Client

/-! ### What `load` has checked -/

/-- The facts about a loaded chunk on which the client's checks rest. -/
structure Chunk.Loaded (chunk : Chunk) : Prop where
  size : chunk.bytes.length ≤ MAX_CHUNK
  next : checkedAdd 64 chunk.offset chunk.bytes.length = some chunk.next
  stored : chunk.next ≤ chunk.stats.stored
  inside : chunk.atEnd = false → chunk.next < chunk.stats.stored
  complete : chunk.complete = true → chunk.atEnd = decide (chunk.next = chunk.stats.stored)
  seen : chunk.stats.stored ≤ chunk.stats.seen
  limit : chunk.stats.stored ≤ Command.MAX_OUTPUT
  truncated : chunk.stats.truncated = decide (chunk.stats.stored < chunk.stats.seen)

section Load
variable {scopes : Codec LiveOutputScope (List UInt8)} {events : Codec OutputEvent String}
  {ends : Codec Client.EndEvent String} {problems : Codec Client.StreamProblemEvent String}

theorem decode_ok {request : LiveOutputRequest} {now : Int} {scope : LiveOutputScope}
    {read : ReadOutput} (h : LiveOutput.decode scopes request now = .ok (scope, read)) :
    scopes.decode request.scopeJson = some scope ∧ scope.validate = .ok () ∧
      request.output = some read := by
  obtain ⟨_, h⟩ := seq_ok.mp h
  obtain ⟨decoded, read', h⟩ := bind_ok.mp h
  obtain ⟨valid, h⟩ := seq_ok.mp h
  obtain ⟨output, selected, h⟩ := bind_ok.mp h
  obtain ⟨_, h⟩ := seq_ok.mp h
  obtain ⟨rfl, rfl⟩ := Prod.mk.inj (pure_ok.mp h)
  exact ⟨okOr_ok.mp read', ensure_ok.mp valid, okOr_ok.mp selected⟩

theorem selectedStats_name {index : Fin 2} {receipt : Receipt} :
    selectedStats receipt (name index).toInt = .ok (selected index receipt) := by
  match index with
  | 0 => rfl
  | 1 => rfl

theorem load_loaded (roundTrips : scopes.RoundTrips) {scope : LiveOutputScope} {simulated : Bool}
    {index : Fin 2} {offset : ℕ} {sent received checked : Int}
    {reply : LiveOutputRequest → Option LiveOutputObservation} {chunk : Chunk}
    (h : load scopes scope simulated index offset sent received checked reply = .ok chunk) :
    chunk.Loaded := by
  obtain ⟨request, asked, h⟩ := bind_ok.mp h
  obtain ⟨answer, _, h⟩ := bind_ok.mp h
  obtain ⟨_, h⟩ := seq_ok.mp h
  obtain ⟨⟨scope', read⟩, decoded, h⟩ := bind_ok.mp h
  obtain ⟨receipt, _, h⟩ := bind_ok.mp h
  obtain ⟨wire, _, h⟩ := bind_ok.mp h
  obtain ⟨accepted, h⟩ := seq_ok.mp h
  obtain rfl := pure_ok.mp h
  obtain ⟨scopeJson, written, asked⟩ := bind_ok.mp asked
  obtain rfl := pure_ok.mp asked
  obtain ⟨readBack, valid, output⟩ := decode_ok (mapError_ok.mp decoded)
  -- The descriptor that is read back is the one the request was made from.
  have same : scope = scope' :=
    Option.some.inj ((roundTrips _ _ (okOr_ok.mp written)).symm.trans readBack)
  obtain rfl := same
  obtain rfl := Option.some.inj output
  have bounds := ensure_ok.mp (seq_ok.mp valid).2
  obtain ⟨record, stats, chosen, inside⟩ := validateChunk_ok (mapError_ok.mp accepted)
  obtain ⟨shape, limit⟩ := CommandRecord.validateReceipt_ok record
  rw [selectedStats_name] at chosen
  obtain rfl := Except.ok.inj chosen
  have output : Receipt.OutputValid (selected index receipt) receipt.outputLimit := by
    obtain ⟨out, err⟩ := Receipt.validate_output shape
    unfold selected
    split
    · exact out
    · exact err
  refine ⟨inside.size, ?_, inside.stored, inside.inside, inside.complete, output.stored, ?_,
    output.truncated⟩
  · have start : wire.offset = offset := inside.offset
    exact start ▸ inside.next
  · exact (output.limit.trans (le_of_eq limit.symm)).trans bounds.2.2.2

/-- The guest answered "no more captured bytes" before the receipt that counts more of them. -/
def StaleEnd (chunk : Chunk) : Prop := chunk.atEnd = true ∧ chunk.next < chunk.stats.stored

theorem atEnd_iff {chunk : Chunk} (loaded : chunk.Loaded) :
    chunk.atEnd = decide (chunk.next = chunk.stats.stored) ↔ ¬StaleEnd chunk := by
  have stored := loaded.stored
  cases atEnd : chunk.atEnd with
  | false =>
    have inside := loaded.inside atEnd
    simp [StaleEnd, atEnd]
    omega
  | true =>
    simp [StaleEnd, atEnd]
    omega

theorem produce_frame {cursor moved : Cursor} {index : Fin 2} {chunk : Chunk} {done : Bool}
    {frame : Frame} (h : produce events cursor index chunk = .ok (moved, done, some frame)) :
    frame.event = "output" ∧ frame.id = moved.encode ∧
      events.encode (outputEvent index chunk) = some frame.data := by
  unfold produce at h
  dsimp only at h
  split at h
  · obtain ⟨data, encoded, h⟩ := bind_ok.mp h
    simp only [pure_ok, Prod.mk.injEq, Option.some.injEq] at h
    obtain ⟨rfl, _, rfl⟩ := h
    exact ⟨rfl, rfl, okOr_ok.mp encoded⟩
  · simp only [pure_ok, Prod.mk.injEq, reduceCtorEq, and_false] at h

/-- The client accepts the output event of a live chunk exactly when the chunk's end is not
stale. -/
theorem live_event_accepted_iff (scopesRoundTrip : scopes.RoundTrips)
    (eventsRoundTrip : events.RoundTrips) {scope : LiveOutputScope} {simulated done : Bool}
    {index : Fin 2} {cursor moved : Cursor} {sent received checked : Int}
    {reply : LiveOutputRequest → Option LiveOutputObservation} {chunk : Chunk} {frame : Frame}
    (loaded : load scopes scope simulated index (cursor.offset index) sent received checked reply =
      .ok chunk)
    (produced : produce events cursor index chunk = .ok (moved, done, some frame)) :
    (∃ event, Client.decode events ends problems frame.event (some frame.id) frame.data =
      .ok event) ↔ ¬StaleEnd chunk := by
  have facts := load_loaded scopesRoundTrip loaded
  obtain ⟨kind, id, encoded⟩ := produce_frame produced
  have readBack := eventsRoundTrip _ _ encoded
  have bytes : Base64.decode Base64.standard true (outputEvent index chunk).dataBase64.toList =
      some chunk.bytes := by
    rw [outputEvent, String.toList_ofList]
    exact Base64.decode_encode Base64.standard_lawful chunk.bytes
  rw [kind, id]
  simp only [Client.decode, if_true, Client.decodeOutput]
  rw [← atEnd_iff facts]
  constructor
  · rintro ⟨event, h⟩
    obtain ⟨data, parsed, h⟩ := bind_ok.mp h
    obtain rfl := Option.some.inj (readBack.symm.trans (okOr_ok.mp parsed))
    obtain ⟨_, _, h⟩ := bind_ok.mp h
    have checks := ensure_ok.mp (seq_ok.mp h).1
    simp only [not_or, not_not] at checks
    exact checks.2.2.2.2.2.2.1
  · intro ends
    refine ⟨.output moved.encode (outputEvent index chunk), ?_⟩
    refine bind_ok.mpr ⟨_, okOr_ok.mpr readBack, bind_ok.mpr ⟨_, okOr_ok.mpr bytes, ?_⟩⟩
    refine seq_ok.mpr ⟨ensure_ok.mpr ?_, bind_ok.mpr ⟨_, Client.cursorText_encode moved, rfl⟩⟩
    have size : chunk.bytes.length ≤ 32768 := facts.size
    have limit : chunk.stats.stored ≤ 10485760 := facts.limit
    have names : (outputEvent index chunk).stream = "stdout" ∨
        (outputEvent index chunk).stream = "stderr" := by
      unfold outputEvent
      split
      · exact Or.inl rfl
      · exact Or.inr rfl
    simp only [not_or, not_not, not_lt]
    exact ⟨not_and_or.mpr (names.imp not_not.mpr not_not.mpr), size, facts.next, facts.stored, limit, facts.seen, ends, by simp [outputEvent],
      facts.truncated⟩

end Load
/-! ### A running command that stored more bytes between the two guest calls -/

namespace Sample

def id (n : ℕ) : Uuid := 0x01900000000070008000000000000000#128 + BitVec.ofNat 128 n

def scope : LiveOutputScope :=
  { version := 1
    owner :=
      { projectId := ⟨id 1⟩, sandboxId := ⟨id 2⟩, operationId := ⟨id 3⟩, allocationId := ⟨id 4⟩
        generation := 1, hostId := ⟨id 5⟩, hostEpoch := 1, bootId := "boot" }
    commandDigest := Vector.replicate 32 0
    outputLimit := 1024
    deadlineUnixMs := 1000000 }

def owner : Ownership :=
  { hostId := ⟨id 5⟩, projectId := ⟨id 1⟩, sandboxId := ⟨id 2⟩, allocationId := ⟨id 4⟩
    operationId := ⟨id 6⟩, generation := 1, supervisorEpoch := 1, claimRevision := 1
    claimExpiresUnixMs := 1000 }

def context : Context := ⟨⟨id 4⟩, 1, "boot"⟩

def command : CommandRecord :=
  { digest := Vector.replicate 32 0, context := some context, deadlineUnixMs := 1000000
    outputLimit := 1024, notStarted := false, receipt := none }

/-- Ten bytes of standard output are stored and the command is still running. -/
def receipt : Receipt :=
  { version := 1, context, operationId := ⟨id 3⟩, digest := Vector.replicate 32 0
    state := .launchIntent, deadlineUnixMs := 1000000, outputLimit := 1024
    cancelRequested := false, cleanupConfirmed := false, exitCode := none, signal := none
    stdout := { seen := 10, stored := 10 }, stderr := {}, reason := none }

def read : ReadOutput := ⟨⟨id 3⟩, 1, 0, MAX_CHUNK⟩

/-- The first three of them were all there was when the bytes were read. -/
def wireChunk : OutputChunk :=
  { operationId := ⟨id 3⟩, stream := 1, offset := 0, nextOffset := 3, data := [97, 98, 99]
    atEnd := true, complete := false }

def scopeJson : List UInt8 :=
  (object
    [ member "version" (decimal 1),
      member "owner" (object
        [ member "project_id" (quoted scope.owner.projectId.display),
          member "sandbox_id" (quoted scope.owner.sandboxId.display),
          member "operation_id" (quoted scope.owner.operationId.display),
          member "allocation_id" (quoted scope.owner.allocationId.display),
          member "generation" (decimal 1),
          member "host_id" (quoted scope.owner.hostId.display),
          member "host_epoch" (decimal 1),
          member "boot_id" (quoted scope.owner.bootId.toList) ]),
      member "command_digest" (array (List.replicate 32 (decimal 0))),
      member "output_limit" (decimal 1024),
      member "deadline_unix_ms" (decimal 1000000) ]).map fun c => UInt8.ofNat c.toNat

def scopes : Codec LiveOutputScope (List UInt8) := .only scope scopeJson

def request : LiveOutputRequest := { scopeJson, output := some read, expiresUnixMs := 15100 }

def reply (request : LiveOutputRequest) : Option LiveOutputObservation :=
  some
    { request := some request, hostId := ⟨id 5⟩, supervisorEpoch := 1, simulated := false
      observedUnixMs := 200, chunk := some wireChunk, receipt := some receipt }

def cursor : Cursor :=
  { version := 1, project := ⟨id 1⟩, operation := ⟨id 3⟩, binding := Vector.replicate 32 0
    offsets := (0, 0) }

def chunk : Chunk :=
  { bytes := [97, 98, 99], offset := 0, next := 3, atEnd := true, complete := false
    stats := { seen := 10, stored := 10 }, simulated := false, expires := 15100 }

def eventText : String :=
  String.ofList (object
    [ member "stream" (quoted "stdout".toList), member "offset" (decimal 0),
      member "next_offset" (decimal 3), member "data_base64" (quoted "YWJj".toList),
      member "at_end" "true".toList, member "complete" "false".toList, member "seen" (decimal 10),
      member "stored" (decimal 10), member "truncated" "false".toList,
      member "simulated" "false".toList, member "guest_reported" "true".toList ])

def events : Codec OutputEvent String := .only (outputEvent ⟨0, Nat.two_pos⟩ chunk) eventText

def ends : Codec Client.EndEvent String := ⟨fun _ => none, fun _ => none⟩
def problems : Codec Client.StreamProblemEvent String := ⟨fun _ => none, fun _ => none⟩

def moved : Cursor := cursor.advance ⟨0, Nat.two_pos⟩ 3

def frame : Frame := { event := "output", id := moved.encode, data := eventText }

theorem load_chunk : load scopes scope false 0 (cursor.offset 0) 100 200 200 reply = .ok chunk := by
  decide +kernel

theorem produce_chunk : produce events cursor 0 chunk = .ok (moved, false, some frame) := by
  have encoded : events.encode (outputEvent 0 chunk) = some eventText := Codec.only_encode _ _
  simp only [produce, encoded, okOr]
  rfl

/-- Host, API and request agree on every check, the API sends the event, and the client refuses
it. -/
theorem stale_end_refused :
    LiveOutput.decode scopes request 200 = .ok (scope, read) ∧
      validateOwner scope owner command = .ok () ∧
      validateChunk scope read command wireChunk receipt = .ok () ∧
      load scopes scope false 0 (cursor.offset 0) 100 200 200 reply = .ok chunk ∧
      produce events cursor 0 chunk = .ok (moved, false, some frame) ∧
      Client.decode events ends problems frame.event (some frame.id) frame.data =
        .error .protocol := by
  refine ⟨by decide +kernel, by decide +kernel, by decide +kernel, load_chunk, produce_chunk, ?_⟩
  decide +kernel

theorem sample_event_accepted_iff :
    (∃ event, Client.decode events ends problems frame.event (some frame.id) frame.data =
      .ok event) ↔ ¬StaleEnd chunk :=
  live_event_accepted_iff Codec.only_roundTrips Codec.only_roundTrips load_chunk produce_chunk

end Sample

end HudsonSandbox.Stream
