import HudsonSandbox.Host.Collected
import HudsonSandbox.Library.Run
import HudsonSandbox.Protocol.OutputRetirement
import HudsonSandbox.Sources.Retirer
import HudsonSandbox.Stream.Client
import HudsonSandbox.Stream.Recording

/-!
# Following the output of an operation

One client reads the output of an operation over as many connections as it takes, each from the cursor
that came with the last event it got. The bytes come from the guest while the command's host is there and
from published objects later. Whatever the database, the host, the credentials and the network do at any
point is an event.
-/

namespace HudsonSandbox.Stream
open Checked GuestModel LiveOutput Output Text

inductive Failure where
  | problem (problem : Problem)
  | outputRange | notFound | unauthenticated | forbidden
  | badRequest (message : String)
  deriving DecidableEq

structure Archived where
  owner : Option OutputOwner
  references : Option OutputRefs
  simulated : Option Bool
  deriving DecidableEq

inductive Source where
  | pending | missing | expired
  | live (scope : LiveOutputScope) (simulated : Bool)
  | archived (view : Archived)
  deriving DecidableEq

def Source.isLive : Source → Bool
  | .live _ _ => true
  | _ => false

def Source.isArchived : Source → Bool
  | .archived _ => true
  | _ => false

/-- Clock readings are nanoseconds. -/
structure View where
  source : Source
  expiresAt : Option ℤ
  deriving DecidableEq

def ms (now : ℤ) : ℤ := now.tdiv 1000000

def View.owner (view : View) (now : ℤ) : Except Failure OutputOwner :=
  if ∃ t ∈ view.expiresAt, t ≤ now then .error (.problem .outputExpired)
  else
    match view.source with
    | .live scope _ => .ok scope.owner
    | .archived v => okOr v.owner (.problem .unavailable)
    | .pending => .error (.problem .outputNotReady)
    | .missing => .error (.problem .outputMissing)
    | .expired => .error (.problem .outputExpired)

def SameSource (a b : View) : Prop :=
  match a.source, b.source with
  | .live scope simulated, .live scope' simulated' => scope = scope' ∧ simulated = simulated'
  | .archived v, .archived v' =>
    v.owner = v'.owner ∧ v.references = v'.references ∧ v.simulated = v'.simulated
  | _, _ => False

instance (a b : View) : Decidable (SameSource a b) := by
  unfold SameSource
  split <;> infer_instance

/-! ### Cursors of clients -/

/-- What `serde_json` makes of a cursor's text. -/
structure RawCursor where
  version : UInt32
  project : ProjectId
  operation : OperationId
  binding : List Char
  offsets : UInt64 × UInt64
  deriving DecidableEq

namespace Cursor
variable (binding : OutputOwner → Digest)

def bytes (self : Cursor) : List UInt8 := self.json.map fun c => UInt8.ofNat c.toNat

def raw (self : Cursor) : RawCursor :=
  { version := self.version, project := self.project, operation := self.operation, binding := hexEncode self.binding
    offsets := self.offsets }

/-- `binding` stands for the SHA-256 of the owner's JSON text. -/
def new (owner : OutputOwner) : Cursor :=
  { version := 1, project := owner.projectId, operation := owner.operationId, binding := binding owner, offsets := (0, 0) }

def invalid : Failure := .badRequest "invalid stream cursor"

def parse (json : List UInt8 → Option RawCursor) (text : String) (owner : OutputOwner) : Except Failure Cursor := do
  ensure (text.utf8ByteSize ≤ 2048) invalid
  let c ← okOr ((Base64.decode Base64.urlSafe false text.toList).bind json) invalid
  ensure (c.version = 1 ∧ c.project = owner.projectId ∧ c.operation = owner.operationId ∧
    ∃ sum ∈ checkedAdd 64 c.offsets.1.toNat c.offsets.2.toNat, sum ≤ Command.MAX_OUTPUT) invalid
  ensure (c.binding = hexEncode (binding owner)) (.problem .outputMissing)
  pure { version := c.version, project := c.project, operation := c.operation, binding := binding owner
         offsets := c.offsets }

end Cursor

/-! ### Published output -/

/-- `sandbox_artifacts::Error` with the bounds of a range. -/
inductive ReadError where
  | bounds
  | failed (error : Artifacts.Error)
  deriving DecidableEq

structure ArchiveChunk where
  bytes : List UInt8
  nextOffset : ℕ
  eof : Bool
  truncated : Bool

def checkOwner (plan : OutputPlan) (owner : OutputOwner) (now : ℤ) : Except Artifacts.Error Unit := do
  plan.validate.mapError fun _ => .invalidMetadata
  ensure (plan.owner = owner) .ownerMismatch
  ensure (plan.createdUnixMs ≤ now) .invalidMetadata
  ensure (now < plan.expiresUnixMs) .expired

/-- `ArtifactStore::read`; `fetched` is the whole object, once it has been verified. -/
def readArchive (reference : OutputRef) (owner : OutputOwner) (now : ℤ) (offset limit : ℕ)
    (fetched : Except Artifacts.Error (List UInt8)) : Except ReadError ArchiveChunk := do
  reference.validate.mapError fun _ => .failed .invalidMetadata
  (checkOwner reference.plan owner now).mapError .failed
  ensure (¬(limit = 0 ∨ MAX_CHUNK < limit ∨ reference.plan.size < offset)) .bounds
  let bytes ← fetched.mapError .failed
  let stop := min bytes.length (offset + limit)
  pure
    { bytes := (bytes.drop offset).take (stop - offset)
      nextOffset := stop
      eof := decide (stop = bytes.length)
      truncated := reference.plan.truncated }

def archiveProblem : ReadError → Failure
  | .failed .missing => .problem .outputMissing
  | .failed .expired => .problem .outputExpired
  | .failed .corrupt | .failed .conflict => .problem .outputCorrupt
  | .bounds => .outputRange
  | .failed _ => .problem .unavailable

/-- The archived branch of `load`. -/
def loadArchived (view : Archived) (owner : Except Failure OutputOwner) (index : Fin 2) (offset : ℕ) (now : ℤ)
    (fetched : Except Artifacts.Error (List UInt8)) : Except Failure Chunk := do
  let refs ← okOr view.references (.problem .unavailable)
  let reference := if index = out then refs.stdout else refs.stderr
  let owner ← owner
  ensure (offset ≤ reference.plan.size) .outputRange
  let result ← (readArchive reference owner now offset MAX_CHUNK fetched).mapError archiveProblem
  let expected := min (reference.plan.size - offset) MAX_CHUNK
  ensure (¬(result.bytes.length ≠ expected ∨ result.nextOffset ≠ offset + expected ∨
      result.eof ≠ decide (result.nextOffset = reference.plan.size) ∨ result.truncated ≠ reference.plan.truncated))
    (.problem .outputCorrupt)
  let simulated ← okOr view.simulated (.problem .unavailable)
  pure
    { bytes := result.bytes
      offset
      next := result.nextOffset
      atEnd := result.eof
      complete := true
      stats := { stored := reference.plan.size, seen := reference.plan.seen, truncated := reference.plan.truncated }
      simulated
      expires := reference.plan.expiresUnixMs }

/-! ### Where the bytes are -/

/-- A published pair of objects and what is stored in them. -/
structure Published where
  refs : OutputRefs
  stdout : List UInt8
  stderr : List UInt8

def Published.bytes (self : Published) (index : Fin 2) : List UInt8 := if index = out then self.stdout else self.stderr

/-- One attempt of the operation: its guest, and what was published of it. -/
structure Origin where
  recording : Recording
  published : Option Published

abbrev World := OutputOwner → Option Origin

/-- What the host's collection reads from this guest. -/
def Recording.source (r : Recording) (counts : ℕ → ℕ) : Host.Collected.OutputSource := fun n name offset =>
  match r.output ⟨r.receipt.operationId, Host.Collected.number name, offset, MAX_CHUNK⟩ (counts n) with
  | .error _ => some (.error ⟨.unavailable, "guest output unavailable; reconcile artifacts"⟩)
  | .ok chunk =>
    some (.ok
      { operationId := chunk.operationId.toString, stream := chunk.stream, offset := chunk.offset, data := chunk.data
        nextOffset := chunk.nextOffset, atEnd := chunk.atEnd, complete := chunk.complete })

/-- A view names the source of an attempt: its guest, or the objects published for it. -/
def World.Knows (world : World) (view : View) : Prop :=
  match view.source with
  | .live scope _ => (world scope.owner).isSome = true
  | .archived v =>
    ∀ owner ∈ v.owner, ∃ o ∈ world owner, ∀ refs ∈ v.references, ∃ p ∈ o.published, p.refs = refs
  | _ => True

instance (world : World) (view : View) : Decidable (world.Knows view) := by
  unfold World.Knows
  split <;> infer_instance

/-- The object that a read of the archive gets. -/
def World.object (world : World) (view : Archived) (index : Fin 2) : Except Artifacts.Error (List UInt8) :=
  okOr (((view.owner.bind world).bind Origin.published).map fun p => p.bytes index) .missing

/-- What a host's reader adds to the guest's two answers. -/
structure Envelope where
  request : Option LiveOutputRequest
  hostId : HostId
  supervisorEpoch : ℤ
  simulated : Bool
  observedUnixMs : ℤ

def Envelope.observation (e : Envelope) (chunk : OutputChunk) (receipt : Receipt) : LiveOutputObservation :=
  { request := e.request, hostId := e.hostId, supervisorEpoch := e.supervisorEpoch, simulated := e.simulated
    observedUnixMs := e.observedUnixMs, chunk := some chunk, receipt := some receipt }

/-! ### The producer -/

inductive Item where
  | frame (frame : Frame)
  | gap (failure : Failure)
  | error (failure : Failure)
  deriving DecidableEq

/-- Where the task of a connection stands. -/
inductive Point where
  | viewing
  /-- The guest's chunk, once it has answered. -/
  | loading (before : View) (chunk : Option OutputChunk)
  | confirming (before : View) (loaded : Except Failure Chunk)
  | emitting (frame : Frame) (simulated : Bool)
  | closing (frame : Frame)
  | reporting (failure : Failure)
  | telling (item : Item)
  | finished

structure Producer where
  cursor : Cursor
  done : Fin 2 → Bool
  index : Fin 2
  previous : Option View
  stats : Fin 2 → GuestModel.Output
  point : Point

def Producer.new (cursor : Cursor) : Producer :=
  { cursor, done := fun _ => false, index := out, previous := none, stats := fun _ => {}, point := .viewing }

def Producer.at (self : Producer) (point : Point) : Producer := { self with point }

section
variable (binding : OutputOwner → Digest) (events : Codec OutputEvent String) (ends : Codec Client.EndEvent String)

/-- The first metadata read of a turn. -/
def Producer.view (self : Producer) (before : View) (now : ℤ) : Producer :=
  -- Both ends are reconfirmed against newly selected final objects.
  let published := (∃ v ∈ self.previous, v.source.isLive = true) ∧ before.source.isArchived = true
  let self := { self with done := if published then fun _ => false else self.done, previous := some before }
  match before.owner now with
  | .error failure => self.at (.reporting failure)
  | .ok owner =>
    if self.cursor.binding = binding owner then
      { self with index := if self.done self.index = true then err - self.index else self.index
                  point := .loading before none }
    else self.at (.reporting (.problem .outputMissing))

/-- After an event of the turn, if there was one: the end, or the next turn. -/
def Producer.settle (self : Producer) (simulated : Bool) : Producer :=
  if ∀ index, self.done index = true then
    match ends.encode
      { reason := "complete", stdout := self.stats out, stderr := self.stats err, simulated, guestReported := true } with
    | none => self.at (.reporting (.problem .internal))
    | some data => self.at (.closing { event := "end", id := self.cursor.encode, data })
  else { self with index := err - self.index, point := .viewing }

def Producer.turned (self : Producer) (chunk : Chunk) (cursor : Cursor) (done : Bool) (frame : Option Frame) : Producer :=
  let self :=
    { self with cursor, done := Function.update self.done self.index done
                stats := Function.update self.stats self.index chunk.stats }
  match frame with
  | some frame => self.at (.emitting frame chunk.simulated)
  | none => self.settle ends chunk.simulated

/-- The rest of a turn: nothing is sent before the credentials and the source were looked at again. -/
def Producer.confirmed (self : Producer) (before : View) (loaded : Except Failure Chunk) (after : Except Failure View)
    (allowed : Except Failure Unit) (now checked : ℤ) : Except Failure Producer := do
  allowed
  let after ← after
  let owner ← after.owner now
  ensure (self.cursor.binding = binding owner) (.problem .outputMissing)
  if SameSource before after then
    let chunk ← loaded
    ensure (ms checked < chunk.expires)
      (if before.source.isLive = true then .problem .unavailable else .problem .outputExpired)
    let (cursor, done, frame) ← (produce events self.cursor self.index chunk).mapError .problem
    pure (self.turned ends chunk cursor done frame)
  else
    -- Publication won during a live read.
    ensure (before.source.isLive = true ∧ after.source.isArchived = true) (.problem .unavailable)
    pure (self.at .viewing)

def Producer.confirm (self : Producer) (before : View) (loaded : Except Failure Chunk) (after : Except Failure View)
    (allowed : Except Failure Unit) (now checked : ℤ) : Producer :=
  match self.confirmed binding events ends before loaded after allowed now checked with
  | .ok next => next
  | .error failure => self.at (.reporting failure)

end

/-! ### Connections and their client -/

/-- The queue holds one event. `expires` is in milliseconds. -/
structure Session where
  producer : Producer
  queue : Option Item
  denied : Bool
  expires : Option ℤ

def Session.retainUntil (self : Session) (at_ : Option ℤ) : Session :=
  { self with
    expires :=
      match self.expires, at_.map ms with
      | some a, some b => some (min a b)
      | a, b => a.or b }

def Session.with (self : Session) (producer : Producer) : Session := { self with producer }

structure Follower where
  cursor : Option String
  got : Fin 2 → List UInt8
  ended : Option Client.EndEvent

/-- The output of an event is appended, and its cursor kept. -/
def Follower.take (self : Follower) (cursor : String) (data : OutputEvent) : Follower :=
  let index := if data.stream = "stdout" then out else err
  let bytes := (Base64.decode Base64.standard true data.dataBase64.toList).getD []
  { self with cursor := some cursor, got := Function.update self.got index (self.got index ++ bytes) }

structure System where
  world : World
  follower : Follower
  session : Option Session

inductive Event where
  /-- A guest's state, as it is from now on. -/
  | record (owner : OutputOwner) (recording : Recording)
  /-- The host collects the output of an attempt, and its objects are published. -/
  | publish (owner : OutputOwner) (ticket : OutputTicket) (counts : ℕ → ℕ) (fuel : ℕ) (refs : OutputRefs)
  | connect (view : Except Failure View) (allowed : Except Failure Unit) (permit : Bool) (now : ℤ)
  | view (view : Except Failure View) (now : ℤ)
  | read (count : ℕ)
  | reply (host : Option Envelope) (sent received checked : ℤ)
  | fetch (failure : Option Artifacts.Error) (now asked : ℤ)
  | confirm (after : Except Failure View) (allowed : Except Failure Unit) (now checked : ℤ)
  | accept
  /-- The queue stays full for too long. -/
  | stall
  | report (allowed : Bool)
  /-- The watchdog finds the credentials revoked, or the connection is too old. -/
  | stop
  | poll (now : ℤ)
  | disconnect

/-- Everything outside the model that the code calls. -/
structure Codecs where
  owners : List OutputOwner
  binding : OutputOwner → Digest
  sha256 : List UInt8 → Digest
  json : List UInt8 → Option RawCursor
  scopes : Codec LiveOutputScope (List UInt8)
  events : Codec OutputEvent String
  ends : Codec Client.EndEvent String
  problems : Codec Client.StreamProblemEvent String

def fresh : System := { world := fun _ => none, follower := ⟨none, fun _ => [], none⟩, session := none }

section
variable (c : Codecs)

def World.record (world : World) (owner : OutputOwner) (recording : Recording) : World :=
  -- The public cap is checked before a command is admitted.
  if owner ∈ c.owners ∧ recording.receipt.outputLimit ≤ Command.MAX_OUTPUT ∧
      ∀ o ∈ world owner, o.recording.Extends recording then
    Function.update world owner (some { recording, published := (world owner).bind Origin.published })
  else world

def World.publish (world : World) (owner : OutputOwner) (ticket : OutputTicket) (counts : ℕ → ℕ) (fuel : ℕ)
    (refs : OutputRefs) : World :=
  match world owner with
  | none => world
  | some o =>
    match Host.Collected.collect c.sha256 ticket o.recording.receipt (o.recording.source counts) fuel with
    | some (.ok captured) =>
      if refs.plans = captured.plans then
        Function.update world owner
          (some { o with published := some ⟨refs, captured.stdout, captured.stderr⟩ })
      else world
    | _ => world

/-- `open`, from the cursor of the client's last event. -/
def opened (follower : Follower) (view : Except Failure View) (allowed : Except Failure Unit) (now : ℤ) :
    Except Failure Session := do
  let view ← view
  allowed
  let owner ← view.owner now
  let cursor ← match follower.cursor with
    | some text => Cursor.parse c.binding c.json text owner
    | none => pure (Cursor.new c.binding owner)
  pure { producer := .new cursor, queue := none, denied := false, expires := view.expiresAt.map ms }

/-- One event of the task of a connection. -/
def Session.step (self : Session) (world : World) : Event → Session
  | .view view now =>
    match self.producer.point, view with
    | .viewing, .ok before => (self.retainUntil before.expiresAt).with (self.producer.view c.binding before now)
    | .viewing, .error failure => self.with (self.producer.at (.reporting failure))
    | _, _ => self
  | .read count =>
    match self.producer.point with
    | .loading ⟨.live scope simulated, expiresAt⟩ none =>
      match world scope.owner with
      | none => self
      | some o =>
        match o.recording.output
            ⟨scope.owner.operationId, (name self.producer.index).toInt, self.producer.cursor.offset self.producer.index,
              MAX_CHUNK⟩ count with
        | .error _ => self
        | .ok chunk => self.with (self.producer.at (.loading ⟨.live scope simulated, expiresAt⟩ (some chunk)))
    | _ => self
  | .reply host sent received checked =>
    match self.producer.point with
    | .loading ⟨.live scope simulated, expiresAt⟩ chunk =>
      let observed := do
        let e ← host
        let chunk ← chunk
        let o ← world scope.owner
        pure (e.observation chunk o.recording.receipt)
      let loaded := load c.scopes scope simulated self.producer.index (self.producer.cursor.offset self.producer.index)
        sent received checked fun _ => observed
      self.with (self.producer.at (.confirming ⟨.live scope simulated, expiresAt⟩ (loaded.mapError .problem)))
    | _ => self
  | .fetch failure now asked =>
    match self.producer.point with
    | .loading ⟨.archived v, expiresAt⟩ _ =>
      let fetched := failure.elim (world.object v self.producer.index) .error
      let loaded := loadArchived v (View.owner ⟨.archived v, expiresAt⟩ now) self.producer.index
        (self.producer.cursor.offset self.producer.index) (ms asked) fetched
      self.with (self.producer.at (.confirming ⟨.archived v, expiresAt⟩ loaded))
    | _ => self
  | .confirm after allowed now checked =>
    match self.producer.point with
    | .confirming before loaded =>
      let kept := match allowed, after with
        | .ok (), .ok view => self.retainUntil view.expiresAt
        | _, _ => self
      kept.with (self.producer.confirm c.binding c.events c.ends before loaded after allowed now checked)
    | _ => self
  | .accept =>
    match self.queue, self.producer.point with
    | none, .emitting frame simulated =>
      { self with queue := some (.frame frame), producer := self.producer.settle c.ends simulated }
    | none, .closing frame => { self with queue := some (.frame frame), producer := self.producer.at .finished }
    | none, .telling item => { self with queue := some item, producer := self.producer.at .finished }
    | _, _ => self
  | .stall => { self with denied := true, producer := self.producer.at .finished }
  | .report allowed =>
    match self.producer.point with
    | .reporting failure =>
      if self.denied = true then self.with (self.producer.at .finished)
      else if failure = .unauthenticated ∨ failure = .forbidden ∨ failure = .notFound ∨ allowed = false then
        { self with denied := true, producer := self.producer.at .finished }
      else if failure = .problem .outputMissing ∨ failure = .problem .outputExpired then
        self.with (self.producer.at (.telling (.gap failure)))
      else self.with (self.producer.at (.telling (.error failure)))
    | _ => self
  | .stop => { self with denied := true, producer := self.producer.at .finished }
  | _ => self

/-- The client gets the event; the connection goes on after output only. -/
def System.deliver (s : System) (session : Session) : Item → System
  | .frame frame =>
    match Client.decode c.events c.ends c.problems frame.event (some frame.id) frame.data with
    | .ok (.output cursor data) =>
      { s with follower := s.follower.take cursor data, session := some { session with queue := none } }
    | .ok (.ended cursor data) =>
      { s with follower := { s.follower with cursor := some cursor, ended := some data }, session := none }
    | _ => { s with session := none }
  | .gap _ | .error _ => { s with session := none }

/-- Nothing is released once the connection is denied, or its output has expired; the client is then told of a gap. -/
def System.poll (s : System) (session : Session) (now : ℤ) : System :=
  if session.denied = true ∨ ∃ at_ ∈ session.expires, at_ ≤ ms now then { s with session := none }
  else
    match session.queue, session.producer.point with
    | some item, _ => s.deliver c session item
    | none, .finished => { s with session := none }
    | none, _ => s

/-- The views that an event carries. -/
def Event.views : Event → List View
  | .connect (.ok v) _ _ _ | .view (.ok v) _ | .confirm (.ok v) _ _ _ => [v]
  | _ => []

def step (s : System) (event : Event) : System :=
  if ∀ view ∈ event.views, s.world.Knows view then
    match event, s.session with
    | .record owner recording, _ => { s with world := s.world.record c owner recording }
    | .publish owner ticket counts fuel refs, _ => { s with world := s.world.publish c owner ticket counts fuel refs }
    | .connect view allowed permit now, none =>
      match opened c s.follower view allowed now with
      | .error _ => s
      | .ok session => if permit = true ∧ s.follower.ended = none then { s with session := some session } else s
    | .disconnect, _ => { s with session := none }
    | .poll now, some session => s.poll c session now
    | event, some session => { s with session := some (session.step c s.world event) }
    | _, none => s
  else s

end
end HudsonSandbox.Stream
