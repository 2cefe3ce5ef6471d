import HudsonSandbox.Host.Journal

/-!
# Uploads on a host

An upload's record and its revision fence are admitted by one save. Begin, commit and abort are
sent once, after their intent is saved; repeated control calls inspect.
-/

namespace HudsonSandbox.Host
open Checked LiveOutput GuestModel Files History SupervisorFiles Supervisor Effect

/-- What an upload request meets while it holds the gate, in the order it looks. -/
structure FileTurns where
  record : Disk := .written
  /-- No reader capture holds the allocation's file worker. -/
  workerFree : Bool := true
  boot : Option String := none
  admission : Moment
  /-- The host has a file slot left, and its journal has headroom. -/
  hostSlot : Bool := true
  headroom : Bool := true
  fence : Moment
  claim : ℤ
  intent : Disk := .written
  stored : Reply ℕ := .failed
  receipt : Reply Transfer.Receipt := .failed
  result : Disk := .written
  observed : ℤ

section
variable (enc : FileEncoding)

/-- A retained record never outgrows the size it was admitted with. -/
def saveFile (o : Ownership) (file : FileRecord) (disk : Disk) : HostM Record := do
  certain (file.validate enc)
  update disk fun record => do
    ensure (∀ old ∈ record.files.lookup o.operationId, enc.length file ≤ enc.length old) uncertain
    pure { record with files := record.files.insert o.operationId file }

def reservedBytes (record : Record) : ℕ := (record.files.entries.map (·.2.size)).sum

def fileRoom (o : Ownership) (record : Record) (file : FileRecord) (t : FileTurns) :
    Except Status PUnit := do
  ensure (size record.revisions < 64) capacityFull
  ensure (size record.files < MAX_FILES ∧ t.hostSlot = true ∧
    reservedBytes record + file.size ≤ MAX_RESERVED_BYTES)
    ⟨.resourceExhausted, "retained file capacity full"⟩
  ensure (o.operationId ∉ record.revisions ∧ o.operationId ∉ record.commands)
    ⟨.alreadyExists, "operation already has another purpose"⟩
  ensure (t.headroom = true)
    ⟨.resourceExhausted, "host journal lacks file admission headroom"⟩

/-- The admission and its revision share one durable write. -/
def admitFile (o : Ownership) (record : Record) (file : FileRecord) (t : FileTurns) :
    HostM Record := do
  check (deadline o.claimExpiresUnixMs t.admission.now)
  certain (file.validate enc)
  update t.admission.disk fun retained => do
    fileRoom o record file t
    pure { retained with
           revisions := retained.revisions.insert o.operationId o.claimRevision
           files := retained.files.insert o.operationId file }

def fileClient (record : Record) (boot : Option String) : Option Context :=
  if record.stopped = false ∧ record.released = false then record.manifest.bind (·.guestClient boot)
  else none

/-- Only a begin with a live guest starts an upload; anything else fences a new operation. -/
def newFile (upload : Upload) (digest : Digest) (action : FileAction) (client : Option Context) :
    Except String FileRecord :=
  match action, client with
  | .begin, some client => FileRecord.pending enc upload client
  | _, _ => .ok (FileRecord.fenced digest)

def fileOf (o : Ownership) (record : Record) (upload : Upload) (digest : Digest)
    (action : FileAction) (client : Option Context) : HostM FileRecord :=
  match record.files.lookup o.operationId with
  | some file => do
    check ((file.validateIdentity enc upload.operationId upload).mapError fun _ =>
      ⟨.alreadyExists, "file descriptor changed"⟩)
    pure file
  | none => certain (newFile enc upload digest action client)

/-- No guest evidence was obtained, which is not a terminal result. -/
def unobserved (o : Ownership) (file : FileRecord) (now : ℤ) : FileObservation :=
  { file.observation o false now none with state := 0 }

def settleFile (o : Ownership) (upload : Upload) (file : FileRecord) (t : FileTurns) :
    HostM FileObservation := do
  match ← call t.receipt with
  | none => pure (unobserved o file t.observed)
  | some receipt => do
    let moved ← certain (file.observe enc upload receipt)
    let _ ← saveFile enc o moved t.result
    pure (moved.observation o false t.observed none)

/-- The request leaves the host: whatever the guest answers, it has been sent. -/
def ask (operation : OperationId) (action : FileAction) : HostM PUnit :=
  modify fun s => { s with facts := .asked operation action :: s.facts }

/-- Whatever was asked before is only inspected. -/
def inspectFile (o : Ownership) (upload : Upload) (file : FileRecord) (t : FileTurns) :
    HostM FileObservation := do
  ask o.operationId .inspect
  settleFile enc o upload file t

def askFile (o : Ownership) (upload : Upload) (file : FileRecord) (action : FileAction)
    (isNew : Bool) (t : FileTurns) : HostM FileObservation :=
  match action with
  | .begin =>
    if isNew = true then do
      ask o.operationId .begin
      settleFile enc o upload file t
    else inspectFile enc o upload file t
  | .commit =>
    if file.commitRequested = false ∧ file.abortRequested = false ∧ file.state = 1 then do
      let requested := { file with commitRequested := true }
      let _ ← saveFile enc o requested t.intent
      ask o.operationId .commit
      settleFile enc o upload requested t
    else inspectFile enc o upload file t
  | .abort =>
    if file.abortRequested = false then do
      let requested := { file with abortRequested := true }
      let _ ← saveFile enc o requested t.intent
      ask o.operationId .abort
      settleFile enc o upload requested t
    else inspectFile enc o upload file t
  | .write offset data =>
    if file.commitRequested = false ∧ file.abortRequested = false ∧ file.state = 1 then do
      ask o.operationId (.write offset data)
      match ← call t.stored with
      | some stored => pure (file.observation o false t.observed (some stored))
      | none => pure (unobserved o file t.observed)
    else inspectFile enc o upload file t
  | .inspect => inspectFile enc o upload file t

def contactFile (o : Ownership) (upload : Upload) (file : FileRecord) (action : FileAction)
    (client : Option Context) (isNew : Bool) (t : FileTurns) : HostM FileObservation :=
  if file.finished then pure (file.observation o false t.observed none)
  else
    match client with
    | none => pure (unobserved o file t.observed)
    | some client => do
      check (ensure (file.context = some client) uncertain)
      check (deadline o.claimExpiresUnixMs t.claim)
      askFile enc o upload file action isNew t

def fileSync (o : Ownership) (upload : Upload) (digest : Digest) (action : FileAction)
    (t : FileTurns) : HostM FileObservation := do
  let record ← read t.record
  check (record.check .files upload.operationId)
  check (ensure (t.workerFree = true) ⟨.resourceExhausted, "allocation file worker busy"⟩)
  let client := fileClient record t.boot
  let file ← fileOf enc o record upload digest action client
  if o.operationId ∈ record.files then do
    let _ ← fence o t.fence
    contactFile enc o upload file action client false t
  else do
    let _ ← admitFile enc o record file t
    contactFile enc o upload file action client true t

/-! ### Before the gate -/

/-- What `file_write_sync` asks of a chunk before anything else. -/
def chunkValid : FileAction → Except Status PUnit
  | .write offset data =>
    ensure (data ≠ [] ∧ data.length ≤ MAX_CHUNK_BYTES ∧ offset + data.length ≤ MAX_FILE_BYTES)
      ⟨.invalidArgument, "invalid file chunk"⟩
  | _ => .ok ⟨⟩

def chunkFits (upload : Upload) : FileAction → Except Status PUnit
  | .write offset data =>
    ensure (offset + data.length ≤ upload.size) ⟨.invalidArgument, "chunk exceeds declared size"⟩
  | _ => .ok ⟨⟩

def arriveFile (request : FileRequest) (action : FileAction) (t : Arrival) : HostM Waiting := do
  check (chunkValid action)
  let o ← owner request.ownership t.now
  let upload ← check (okOr request.upload ⟨.invalidArgument, "file descriptor required"⟩)
  check (ensure upload.Valid ⟨.invalidArgument, "invalid file descriptor"⟩)
  check (ensure (upload.operationId = o.operationId) ⟨.invalidArgument, "file operation mismatch"⟩)
  check (chunkFits upload action)
  let digest ← certain (enc.digest upload)
  gate o t
  pure (.file o upload digest action)

end

end HudsonSandbox.Host
