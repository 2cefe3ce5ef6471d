import HudsonSandbox.Sources.Retirer
import HudsonSandbox.Store.Operation

/-!
# Upload rows

One admitted file write in the database: its operation row, its `file_uploads` row and the
allocation both are pinned to, and every transaction that writes the columns from which source
cleanup derives its evidence. A transaction that fails leaves the row as it was.
-/

namespace HudsonSandbox.Store
open Checked FileDownloads Files FileSources Artifacts

structure UploadInput where
  path : List Char
  size : ℕ
  sha256 : BitVec 256
  mode : ℕ
  deriving DecidableEq, Repr

namespace UploadInput

def forOperation (input : UploadInput) (operationId : OperationId) : Upload :=
  { operationId, path := input.path, size := input.size, sha256 := input.sha256, mode := input.mode }

def fromPlan (plan : SourcePlan) : UploadInput :=
  { path := plan.upload.path, size := plan.upload.size, sha256 := plan.upload.sha256,
    mode := plan.upload.mode }

end UploadInput

/-- An entry of `attempt_receipts`. -/
structure BeginIntent where
  phase : String
  planSha256 : String
  deriving DecidableEq, Repr

structure UploadOperation extends Operation where
  deadline : Time
  payload : UploadInput
  requestDigest : BitVec 256
  digestVersion : ℤ
  fileAllocationId : Option AllocationId
  attemptReceipts : List BeginIntent
  deriving DecidableEq, Repr

structure SourceCleanupManifest where
  version : ℕ
  plan : SourcePlan
  selected : Option SourceRef
  deriving DecidableEq, Repr

structure FileUpload where
  operationId : OperationId
  projectId : ProjectId
  sandboxId : SandboxId
  allocationId : AllocationId
  size : ℤ
  plan : SourcePlan
  sourceRef : Option SourceRef
  beginRequested : Bool
  sourceFrozenAt : Option Time
  sourceCleanupManifest : Option SourceCleanupManifest
  sourceCleanupRevision : ℤ
  sourceCleanupLeaseUntil : Option Time
  sourceCleanupNextAt : Option Time
  sourceRetiredAt : Option Time
  sourceRetirement : Option SourceRetirement
  deriving DecidableEq, Repr

structure UploadRow where
  op : UploadOperation
  file : FileUpload
  allocation : Allocation
  deriving DecidableEq, Repr

structure SourceCleanupClaim where
  operationId : OperationId
  revision : ℤ
  deriving DecidableEq, Repr

def DIGEST_VERSION : ℤ := 1

variable (enc : Encoding) (request : SandboxId → UploadInput → BitVec 256)

/-! ### Admission -/

structure UploadCommand where
  projectId : ProjectId
  sandboxId : SandboxId
  input : UploadInput

/-- The plan of a new attempt, complete before its first byte is stored. -/
def admittedPlan (r : UploadCommand) (id attempt : OperationId) (allocation : Allocation)
    (now deadline : Time) : SourcePlan :=
  { version := 1
    owner :=
      { operationId := id
        scope :=
          { version := 1, projectId := r.projectId, sandboxId := r.sandboxId,
            allocationId := allocation.id, hostId := allocation.hostId,
            generation := allocation.generation, hostEpoch := allocation.supervisorEpoch } }
    upload := r.input.forOperation id
    sourceAttempt := attempt
    createdUnixMs := ms now
    writeExpiresUnixMs := min (ms now + 300000) (ms deadline)
    expiresUnixMs := ms now + 3600000
    deleteAfterUnixMs := ms now + 3600000 }

/-- The two rows that `admit_upload` inserts. -/
def admittedRow (r : UploadCommand) (id : OperationId) (allocation : Allocation) (plan : SourcePlan)
    (deadline : Time) : UploadRow where
  allocation := allocation
  op :=
    { id, projectId := r.projectId, sandboxId := r.sandboxId, kind := .fileWrite,
      status := .queued, claimRevision := 0, leaseExpiresAt := none, nextRetryAt := none,
      attemptCount := 0, deadline, completedAt := none, payload := r.input,
      requestDigest := request r.sandboxId r.input, digestVersion := DIGEST_VERSION,
      fileAllocationId := some allocation.id, attemptReceipts := [] }
  file :=
    { operationId := id, projectId := r.projectId, sandboxId := r.sandboxId,
      allocationId := allocation.id, size := r.input.size, plan, sourceRef := none,
      beginRequested := false, sourceFrozenAt := none, sourceCleanupManifest := none,
      sourceCleanupRevision := 0, sourceCleanupLeaseUntil := none,
      sourceCleanupNextAt := none, sourceRetiredAt := none, sourceRetirement := none }

/-- `admit_upload` on a running allocation; `expiresAt` is the sandbox's own deadline. -/
def admitUpload (r : UploadCommand) (id attempt : OperationId) (allocation : Allocation)
    (now : Time) (expiresAt : Option Time) : Except DispatchError UploadRow := do
  ensure (r.input.forOperation id).Valid .invalidData
  ensure (allocation.projectId = r.projectId ∧ allocation.sandboxId = r.sandboxId) .query
  let deadline := min (now + seconds 600) (expiresAt.getD (now + seconds 600))
  ensure (now < deadline) .conflict
  let plan := admittedPlan r id attempt allocation now deadline
  plan.validate.mapError fun _ => .invalidData
  pure (admittedRow request r id allocation plan deadline)

/-! ### The identity every later transaction re-derives -/

def beginIntent (plan : SourcePlan) : BeginIntent :=
  { phase := "file_begin_intent", planSha256 := enc.plan plan }

/-- The owner the allocation row implies. -/
def UploadRow.expected (row : UploadRow) : SourceOwner :=
  { operationId := row.op.id
    scope :=
      { version := 1, projectId := row.op.projectId, sandboxId := row.op.sandboxId,
        allocationId := row.file.allocationId, hostId := row.allocation.hostId,
        generation := row.allocation.generation, hostEpoch := row.allocation.supervisorEpoch } }

def sourceIdentity (row : UploadRow) : Except DispatchError (SourcePlan × Option SourceRef) := do
  let op := row.op
  let file := row.file
  let plan := file.plan
  ensure (op.kind = .fileWrite ∧ file.operationId = op.id ∧ file.projectId = op.projectId ∧
    file.sandboxId = op.sandboxId) .invalidData
  plan.validate.mapError fun _ => .invalidData
  ensure (op.fileAllocationId = some file.allocationId) .invalidData
  ensure (row.allocation.id = file.allocationId ∧ row.allocation.projectId = op.projectId ∧
    row.allocation.sandboxId = op.sandboxId) .query
  let input := UploadInput.fromPlan plan
  ensure (plan.owner = row.expected ∧ input = op.payload ∧ file.size = plan.upload.size ∧
    op.requestDigest = request op.sandboxId input ∧ op.digestVersion = DIGEST_VERSION) .invalidData
  ensure (∀ r ∈ file.sourceRef, r.validate = .ok () ∧ r.plan = plan) .invalidData
  ensure (op.attemptCount = if file.beginRequested then 1 else 0) .invalidData
  ensure (file.beginRequested = true → op.attemptReceipts = [beginIntent enc plan]) .invalidData
  pure (plan, file.sourceRef)

/-- The context of a claim holder's transaction: a live fence and a consistent identity. -/
def context (row : UploadRow) (claim : Claim) (now : Time) :
    Except DispatchError (SourcePlan × Option SourceRef) := do
  ensure (row.op.Fenced claim now) .lostClaim
  ensure (row.op.kind = .fileWrite) .conflict
  sourceIdentity enc request row

/-! ### Transactions of the operation's claim holder -/

def finish (row : UploadRow) (claim : Claim) (now : Time) (status : Status) :
    Except DispatchError UploadRow := do
  ensure (row.op.Fenced claim now) .lostClaim
  pure
    { row with
      op :=
        { row.op with
          status
          completedAt := if status.Terminal then some now else none
          leaseExpiresAt := none
          nextRetryAt := if status.Terminal then none else some (now + 100000) } }

/-- `eligible`: the source is not frozen, the deadline has not passed, and `authority` for the
project, sandbox, allocation and host conditions of the same query. -/
def Eligible (row : UploadRow) (authority : Bool) (now : Time) : Prop :=
  row.file.sourceFrozenAt = none ∧ now < row.op.deadline ∧ authority = true

instance (row : UploadRow) (authority : Bool) (now : Time) : Decidable (Eligible row authority now) :=
  inferInstanceAs (Decidable (_ ∧ _))

def prepareUpload (row : UploadRow) (claim : Claim) (host : HostId) (epoch : ℤ) (authority : Bool)
    (now : Time) : Except DispatchError UploadRow := do
  let (plan, source) ← context enc request row claim now
  ensure (plan.owner.scope.hostId = host ∧ plan.owner.scope.hostEpoch = epoch) .hostUnavailable
  if row.file.beginRequested then
    -- The actions after Begin set flags that no source cleanup reads.
    pure row
  else if ¬Eligible row authority now ∨ (source = none ∧ plan.writeExpiresUnixMs ≤ ms now) then
    finish row claim now .failed
  else if source = none then
    pure row
  else
    pure
      { row with
        file := { row.file with beginRequested := true }
        op := { row.op with attemptCount := 1, attemptReceipts := [beginIntent enc plan] } }

def acceptUploadSource (row : UploadRow) (claim : Claim) (source : SourceRef) (now : Time) :
    Except DispatchError UploadRow := do
  let (plan, selected) ← context enc request row claim now
  source.validate.mapError fun _ => .badEvidence
  ensure (source.plan = plan ∧ row.file.beginRequested = false ∧ (∀ r ∈ selected, r = source) ∧
    row.file.sourceFrozenAt = none) .badEvidence
  ensure (ms now < plan.expiresUnixMs) .conflict
  finish { row with file := { row.file with sourceRef := some source } } claim now .running

/-- `upload_unknown` and `observe_upload`, which end the claim with the status their evidence
supports and write nothing that source cleanup reads. -/
def observeUpload (row : UploadRow) (claim : Claim) (status : Status) (now : Time) :
    Except DispatchError UploadRow := do
  let _ ← context enc request row claim now
  finish row claim now status

/-- `claim_next` on this row. -/
def claimUpload (row : UploadRow) (lease : ℤ) (now : Time) : Except DispatchError UploadRow := do
  ensure (row.op.Claimable now ∧ row.op.fileAllocationId.isSome) .conflict
  pure { row with op := { row.op with toOperation := row.op.claimNext lease now } }

def renewUpload (row : UploadRow) (claim : Claim) (lease : ℤ) (now : Time) :
    Except DispatchError UploadRow := do
  ensure (row.op.Fenced claim now) .lostClaim
  pure { row with op := { row.op with toOperation := row.op.renewClaim lease now } }

def deferUpload (row : UploadRow) (claim : Claim) (delay : ℤ) (now : Time) :
    Except DispatchError UploadRow := do
  ensure (row.op.Fenced claim now) .lostClaim
  pure { row with op := { row.op with toOperation := row.op.deferClaim delay now } }

/-! ### Source cleanup -/

def manifest (row : UploadRow) : Except DispatchError SourceCleanupManifest := do
  let (plan, selected) ← sourceIdentity enc request row
  let current : SourceCleanupManifest := { version := 1, plan, selected }
  let saved ← okOr row.file.sourceCleanupManifest .invalidData
  ensure (saved = current ∧ row.file.sourceFrozenAt ≠ none) .invalidData
  pure saved

/-- Past the operation deadline plus the longest claim ever issued. -/
def Expired (row : UploadRow) (now : Time) : Prop := row.op.deadline ≤ now - seconds 300

instance Expired.decidable (row : UploadRow) (now : Time) : Decidable (Expired row now) :=
  inferInstanceAs (Decidable (_ ≤ _))

def fence (row : UploadRow) (claim : SourceCleanupClaim) (plan : SourcePlan) (now : Time) :
    Except DispatchError ℤ := do
  ensure (row.file.operationId = claim.operationId ∧
    row.file.sourceCleanupRevision = claim.revision ∧ row.file.sourceFrozenAt ≠ none ∧
    row.file.sourceRetiredAt = none ∧ Pending row.file.sourceCleanupLeaseUntil now ∧
    plan.deleteAfterUnixMs * 1000 ≤ now ∧ Expired row now) .lostClaim
  pure (ms now)

def claimFileSourceCleanup (row : UploadRow) (lease : ℤ) (now : Time) :
    Except DispatchError UploadRow := do
  ensure (1 ≤ lease ∧ lease ≤ 300) .conflict
  let file := row.file
  ensure (file.sourceRetiredAt = none ∧ Expired row now ∧
    Elapsed file.sourceCleanupLeaseUntil now ∧ Elapsed file.sourceCleanupNextAt now ∧
    (file.sourceFrozenAt ≠ none ∨ Elapsed row.op.leaseExpiresAt now) ∧
    file.plan.deleteAfterUnixMs * 1000 ≤ now) .lostClaim
  let (plan, selected) ← sourceIdentity enc request row
  let saved ←
    (if file.sourceFrozenAt = none then .ok { version := 1, plan, selected }
    else manifest enc request row)
  pure
    { row with
      file :=
        { file with
          sourceFrozenAt := some (file.sourceFrozenAt.getD now)
          sourceCleanupManifest := some (file.sourceCleanupManifest.getD saved)
          sourceCleanupRevision := file.sourceCleanupRevision + 1
          sourceCleanupLeaseUntil := some (now + seconds lease)
          sourceCleanupNextAt := none } }

def prepareFileSourceCleanup (row : UploadRow) (claim : SourceCleanupClaim) (now : Time) :
    Except DispatchError (SourceCleanupManifest × ℤ) := do
  let saved ← manifest enc request row
  let nowUnixMs ← fence row claim saved.plan now
  pure (saved, nowUnixMs)

def completeFileSourceCleanup (row : UploadRow) (claim : SourceCleanupClaim)
    (receipt : SourceRetirement) (now : Time) : Except DispatchError UploadRow := do
  let m ← manifest enc request row
  (receipt.validate enc.plan m.plan).mapError fun _ => .badEvidence
  ensure (∀ r ∈ m.selected, receipt.previous = some r) .badEvidence
  if row.file.sourceRetiredAt ≠ none then
    let retained ← okOr row.file.sourceRetirement .invalidData
    ensure (row.file.sourceCleanupRevision = claim.revision) .lostClaim
    ensure (retained = receipt) .badEvidence
    -- A lost acknowledgement is reconciled without writing twice.
    pure row
  else
    let _ ← fence row claim m.plan now
    ensure (∀ frozen ∈ row.file.sourceFrozenAt, frozen ≤ now) .query
    pure
      { row with
        file :=
          { row.file with
            sourceRetiredAt := some now
            sourceRetirement := some receipt
            sourceCleanupLeaseUntil := none
            sourceCleanupNextAt := none } }

def deferFileSourceCleanup (row : UploadRow) (claim : SourceCleanupClaim) (delay : ℤ) (now : Time) :
    Except DispatchError UploadRow := do
  ensure (1 ≤ delay ∧ delay ≤ 3600) .conflict
  ensure (row.file.operationId = claim.operationId ∧
    row.file.sourceCleanupRevision = claim.revision ∧ Pending row.file.sourceCleanupLeaseUntil now ∧
    row.file.sourceRetiredAt = none) .lostClaim
  pure
    { row with
      file :=
        { row.file with
          sourceCleanupLeaseUntil := none
          sourceCleanupNextAt := some (now + seconds delay) } }

/-- What allocation history asks of a retired source before it forgets the upload. -/
def validateRetired (row : UploadRow) : Except DispatchError SourcePlan := do
  let saved ← manifest enc request row
  ensure (row.file.sourceRetiredAt ≠ none ∧ row.file.sourceCleanupLeaseUntil = none) .invalidData
  let receipt ← okOr row.file.sourceRetirement .invalidData
  (receipt.validate enc.plan saved.plan).mapError fun _ => .invalidData
  ensure (receipt.previous = saved.selected) .invalidData
  pure saved.plan

end HudsonSandbox.Store
