import HudsonSandbox.Library.Run
import HudsonSandbox.Protocol.HostRequests
import HudsonSandbox.Sources.Upload

/-!
# The progress of one upload

An upload's rows with the columns that carry its transfer: the write cursor, the flags of the
intents that were committed, and the last record of the host. Every transaction that moves them
says here what it answers its controller. A transaction has one time, except that authority is
first read at an earlier one.
-/

namespace HudsonSandbox.Uploads
open Checked Store GuestModel LiveOutput Supervisor SupervisorFiles Files FileDownloads FileSources
  Artifacts Run

/-- The `file_uploads` row with the columns that source cleanup never reads. -/
structure Progress extends UploadRow where
  written : ℕ
  needsInspect : Bool
  commitRequested : Bool
  abortRequested : Bool
  record : Option FileRecord
  deriving DecidableEq

inductive UploadAction where
  | rejected
  | source (plan : SourcePlan)
  | begin (request : FileRequest)
  | write (request : FileRequest) (source : SourceRef) (offset limit : ℕ)
  | commit (request : FileRequest)
  | abort (request : FileRequest)
  | inspect (request : FileRequest)
  deriving DecidableEq

structure Context where
  plan : SourcePlan
  source : Option SourceRef
  record : Option FileRecord
  owner : Ownership

def Context.request (c : Context) : FileRequest :=
  { ownership := some c.owner, upload := some c.plan.upload }

def owner (plan : SourcePlan) (claim : Claim) (expires : ℤ) : Ownership :=
  { hostId := plan.owner.scope.hostId, projectId := plan.owner.scope.projectId,
    sandboxId := plan.owner.scope.sandboxId, allocationId := plan.owner.scope.allocationId,
    operationId := claim.operationId, generation := plan.owner.scope.generation,
    supervisorEpoch := plan.owner.scope.hostEpoch, claimRevision := claim.revision,
    claimExpiresUnixMs := expires }

/-- A first reading of authority, at the clock of that statement. -/
structure Reading where
  authority : Bool
  now : Time

section Transactions
variable (enc : Encoding) (request : SandboxId → UploadInput → BitVec 256) (file : FileEncoding)

/-- A retained record that every transaction checks again before it trusts it. -/
def RecordValid (plan : SourcePlan) (claim : Claim) (r : FileRecord) : Prop :=
  r.validate file = .ok () ∧ r.validateIdentity file claim.operationId plan.upload = .ok () ∧
    ∀ c ∈ r.context, c.allocationId = plan.owner.scope.allocationId ∧
      c.generation = plan.owner.scope.generation

instance (plan : SourcePlan) (claim : Claim) (r : FileRecord) : Decidable (RecordValid file plan claim r) :=
  inferInstanceAs (Decidable (_ ∧ _ ∧ ∀ c ∈ r.context, _))

def context (row : Progress) (claim : Claim) (now : Time) : Except DispatchError Context := do
  let (plan, source) ← Store.context enc request row.toUploadRow claim now
  ensure (∀ r ∈ row.record, RecordValid file plan claim r) .invalidData
  pure { plan, source, record := row.record,
         owner := owner plan claim (ms (row.op.leaseExpiresAt.getD 0)) }

/-- The claim ends with the row's status. -/
def finish (row : Progress) (claim : Claim) (now : Time) (status : Store.Status) :
    Except DispatchError Progress := do
  let base ← Store.finish row.toUploadRow claim now status
  pure { row with toUploadRow := base }

/-- Authority and the claim once more, after an intent was written and before it commits. -/
def mutationFence (row : Progress) (claim : Claim) (authority : Bool) (now : Time) :
    Except DispatchError Unit := do
  ensure (Eligible row.toUploadRow authority now) .unauthorized
  ensure (row.op.Fenced claim now) .lostClaim

/-! ### Preparing the next action -/

def prepareBegin (row : Progress) (c : Context) (claim : Claim) (first : Reading) (authority : Bool)
    (now : Time) : Except DispatchError (Progress × UploadAction) := do
  if ¬Eligible row.toUploadRow first.authority first.now ∨
      (c.source = none ∧ c.plan.writeExpiresUnixMs ≤ ms first.now) then
    let next ← finish row claim now .failed
    pure (next, .rejected)
  else if c.source = none then
    pure (row, .source c.plan)
  else
    let next : Progress :=
      { row with
        needsInspect := true
        file := { row.file with beginRequested := true }
        op := { row.op with attemptCount := 1, attemptReceipts := [beginIntent enc c.plan] } }
    mutationFence next claim authority now
    pure (next, .begin c.request)

/-- The host reported the upload as staging, and no intent has ended it. -/
def Staging (record : Option FileRecord) : Prop := ∃ r ∈ record, r.notStarted = false ∧ r.state = 1

instance (record : Option FileRecord) : Decidable (Staging record) :=
  inferInstanceAs (Decidable (∃ r ∈ record, _))

def prepareTransfer (row : Progress) (c : Context) (claim : Claim) (authority : Bool) (now : Time) :
    Except DispatchError (Progress × UploadAction) := do
  if row.written < c.plan.upload.size then
    let source ← okOr c.source .invalidData
    mutationFence row claim authority now
    pure (row, .write c.request source row.written
      (min MAX_CHUNK_BYTES (c.plan.upload.size - row.written)))
  else
    let next : Progress := { row with commitRequested := true, needsInspect := true }
    mutationFence next claim authority now
    pure (next, .commit c.request)

def prepareUpload (row : Progress) (claim : Claim) (host : HostId) (epoch : ℤ) (first : Reading)
    (authority : Bool) (now : Time) : Except DispatchError (Progress × UploadAction) := do
  let c ← context enc request file row claim now
  ensure (c.plan.owner.scope.hostId = host ∧ c.plan.owner.scope.hostEpoch = epoch) .hostUnavailable
  if row.file.beginRequested = false then
    prepareBegin enc row c claim first authority now
  else if ¬Eligible row.toUploadRow first.authority first.now ∧ row.abortRequested = false then
    pure ({ row with abortRequested := true, needsInspect := true }, .abort c.request)
  else if row.needsInspect = true ∨ row.commitRequested = true ∨ row.abortRequested = true then
    pure (row, .inspect c.request)
  else if Staging c.record then
    prepareTransfer row c claim authority now
  else
    pure (row, .inspect c.request)

def acceptUploadSource (row : Progress) (claim : Claim) (source : SourceRef) (now : Time) :
    Except DispatchError Progress := do
  let _ ← context enc request file row claim now
  let base ← Store.acceptUploadSource enc request row.toUploadRow claim source now
  pure { row with toUploadRow := base }

def uploadUnknown (row : Progress) (claim : Claim) (now : Time) : Except DispatchError Progress := do
  let _ ← context enc request file row claim now
  let begun := row.file.beginRequested
  finish { row with needsInspect := begun || row.needsInspect } claim now
    (if begun then .unknown else .running)

/-- The check between a slow read of the source and the chunk that is sent of it. -/
def confirmUploadWrite (row : Progress) (claim : Claim) (asked : FileRequest) (source : SourceRef)
    (offset : ℕ) (authority : Bool) (now : Time) : Except DispatchError Unit := do
  let c ← context enc request file row claim now
  ensure (c.request = asked ∧ c.source = some source ∧ row.written = offset ∧
    row.file.beginRequested = true ∧ row.needsInspect = false ∧ row.commitRequested = false ∧
    row.abortRequested = false ∧ Staging c.record) .conflict
  mutationFence row claim authority now

/-! ### Observing the host -/

def stateOf : ℕ → Option Transfer.State
  | 1 => some .staging
  | 2 => some .commitIntent
  | 3 => some .committed
  | 4 => some .unknown
  | 5 => some .aborted
  | _ => none

/-- The retained record under the intents committed so far, moved by what the host reports. -/
def moveRecord (row : Progress) (c : Context) (o : FileObservation) (reported : GuestModel.Context) :
    Except DispatchError FileRecord := do
  ensure (reported.allocationId = c.plan.owner.scope.allocationId ∧
    reported.generation = c.plan.owner.scope.generation) .badEvidence
  let r ← match c.record with
    | some r => pure r
    | none => (FileRecord.pending file c.plan.upload reported).mapError fun _ => DispatchError.badEvidence
  ensure (r.notStarted = false ∧ r.context = some reported) .badEvidence
  let r := { r with commitRequested := row.commitRequested, abortRequested := row.abortRequested }
  if o.state = 0 then pure r
  else
    let state ← okOr (stateOf o.state) .badEvidence
    (r.observe file c.plan.upload
      { version := 1, context := reported, upload := c.plan.upload, digest := r.digest, state }).mapError
      fun _ => .badEvidence

/-- The record an observation leaves; none where it carries no evidence at all. -/
def observedRecord (row : Progress) (c : Context) (o : FileObservation) :
    Except DispatchError (Option FileRecord) :=
  if o.notStarted = true then do
    ensure (o.context = none ∧ o.state = 0 ∧ o.stored = none ∧
      ∀ r ∈ c.record, r.notStarted = true) .badEvidence
    let digest ← (file.digest c.plan.upload).mapError fun _ => DispatchError.invalidData
    pure (some (FileRecord.fenced digest))
  else
    match o.context with
    | some reported => do
      let r ← moveRecord file row c o reported
      pure (some r)
    | none => do
      ensure (o.state = 0 ∧ o.stored = none) .badEvidence
      pure none

/-- A reply without an observation keeps the record but repeats no result of it. -/
def observedState (o : FileObservation) (record : FileRecord) : ℕ :=
  if o.state = 0 ∧ o.notStarted = false then 0 else record.state

/-- The cursor moves by the acknowledgement of the one chunk that was sent at it. -/
def advanceCursor (row : Progress) (c : Context) (state : ℕ) (written : Option ℕ) :
    Except DispatchError ℕ :=
  match written with
  | none => pure row.written
  | some next => do
    ensure (state = 1 ∧ row.commitRequested = false ∧ row.abortRequested = false ∧
      next = row.written + min (c.plan.upload.size - row.written) MAX_CHUNK_BYTES ∧
      row.written < next) .badEvidence
    pure next

def observedStatus (o : FileObservation) (state : ℕ) : Store.Status :=
  if o.notStarted = true then .failed
  else
    match state with
    | 3 => .succeeded
    | 5 => .failed
    | 1 => .running
    | _ => .unknown

def settleObservation (row : Progress) (c : Context) (claim : Claim) (o : FileObservation)
    (written : Option ℕ) (record : FileRecord) (now : Time) : Except DispatchError Progress := do
  let state := observedState o record
  let cursor ← advanceCursor row c state written
  let kept : FileRecord :=
    if record.notStarted = true then record
    else { record with commitRequested := row.commitRequested, abortRequested := row.abortRequested }
  (kept.validate file).mapError fun _ => DispatchError.badEvidence
  finish { row with written := cursor, record := some kept, needsInspect := decide (state ≠ 1) } claim
    now (observedStatus o state)

/-- `written` is the exact acknowledgement that the original write expects. -/
def observeUpload (row : Progress) (claim : Claim) (o : FileObservation) (written : Option ℕ)
    (allowSimulated : Bool) (now : Time) : Except DispatchError Progress := do
  let c ← context enc request file row claim now
  let digest ← (file.digest c.plan.upload).mapError fun _ => DispatchError.invalidData
  ensure (row.file.beginRequested = true ∧ o.ownership = c.owner ∧ o.uploadDigest = digest ∧
    o.stored = written ∧ o.state ≤ 5) .badEvidence
  ensure (o.simulated = true → allowSimulated = true) .simulationDenied
  ensure (Fresh now o.observedUnixMs) .badEvidence
  match ← observedRecord file row c o with
  | none => uploadUnknown enc request file row claim now
  | some record => settleObservation file row c claim o written record now

/-! ### Claims and source cleanup -/

/-- A transaction on the columns that the transfer does not extend. -/
def Progress.onRow (row : Progress) (result : Except DispatchError UploadRow) :
    Except DispatchError Progress := do
  let base ← result
  pure { row with toUploadRow := base }

/-! ### The rows as one system -/

inductive UploadEvent where
  | claimUpload (lease : ℤ) (now : Time)
  | renewUpload (claim : Claim) (lease : ℤ) (now : Time)
  | deferUpload (claim : Claim) (delay : ℤ) (now : Time)
  | prepareUpload (claim : Claim) (host : HostId) (epoch : ℤ) (first : Reading) (authority : Bool)
      (now : Time)
  | acceptUploadSource (claim : Claim) (source : SourceRef) (now : Time)
  | uploadUnknown (claim : Claim) (now : Time)
  | confirmUploadWrite (claim : Claim) (asked : FileRequest) (source : SourceRef) (offset : ℕ)
      (authority : Bool) (now : Time)
  | observeUpload (claim : Claim) (o : FileObservation) (written : Option ℕ) (allowSimulated : Bool)
      (now : Time)
  | claimFileSourceCleanup (lease : ℤ) (now : Time)
  | completeFileSourceCleanup (claim : SourceCleanupClaim) (receipt : SourceRetirement) (now : Time)
  | deferFileSourceCleanup (claim : SourceCleanupClaim) (delay : ℤ) (now : Time)

/-- The transaction of an event, with the rows it commits. -/
def transact (row : Progress) : UploadEvent → Except DispatchError Progress
  | .claimUpload lease now => row.onRow (claimUpload row.toUploadRow lease now)
  | .renewUpload claim lease now => row.onRow (renewUpload row.toUploadRow claim lease now)
  | .deferUpload claim delay now => row.onRow (deferUpload row.toUploadRow claim delay now)
  | .prepareUpload claim host epoch first authority now =>
    (prepareUpload enc request file row claim host epoch first authority now).map Prod.fst
  | .acceptUploadSource claim source now => acceptUploadSource enc request file row claim source now
  | .uploadUnknown claim now => uploadUnknown enc request file row claim now
  | .confirmUploadWrite claim asked source offset authority now =>
    (confirmUploadWrite enc request file row claim asked source offset authority now).map fun _ => row
  | .observeUpload claim o written allowSimulated now =>
    observeUpload enc request file row claim o written allowSimulated now
  | .claimFileSourceCleanup lease now =>
    row.onRow (claimFileSourceCleanup enc request row.toUploadRow lease now)
  | .completeFileSourceCleanup claim receipt now =>
    row.onRow (completeFileSourceCleanup enc request row.toUploadRow claim receipt now)
  | .deferFileSourceCleanup claim delay now =>
    row.onRow (deferFileSourceCleanup row.toUploadRow claim delay now)

def uploadStep (row : Progress) (event : UploadEvent) : Progress :=
  commit row (transact enc request file row event)

/-- An admitted upload, of which nothing was asked or sent. -/
def Progress.admitted (row : UploadRow) : Progress :=
  { toUploadRow := row, written := 0, needsInspect := false, commitRequested := false,
    abortRequested := false, record := none }

end Transactions
end HudsonSandbox.Uploads
