import HudsonSandbox.Library.Contention
import HudsonSandbox.Library.Maps
import HudsonSandbox.Library.Run
import HudsonSandbox.Sources.Upload
import HudsonSandbox.Store.Fleet
import HudsonSandbox.Store.Execute

/-!
# Admission under an idempotency key

The five transactions that record an operation for a caller, statement by statement, as requests that
interleave in one database. The database enforces the unique key of the operations, and the row of the
project is locked: by a `FOR UPDATE` of its own in four of them, by the foreign key of the new sandbox
in `create`. Whatever else a statement reads is a `View` that the environment supplies.
-/

namespace HudsonSandbox.Store
open Checked GuestModel Command FileSources Contention Run

abbrev RequestId := ℕ

/-- `operations_project_idempotency_key` -/
structure RequestKey where
  projectId : ProjectId
  idempotencyKey : String
  deriving DecidableEq, Repr

/-- The columns of an operation that its admission writes and nobody changes, with the plan of the
`file_uploads` row that is joined to it. -/
structure AdmittedOperation where
  id : OperationId
  key : RequestKey
  sandboxId : SandboxId
  kind : Kind
  requestDigest : Digest
  digestVersion : ℤ
  targetOperationId : Option OperationId
  plan : Option SourcePlan
  deriving DecidableEq

/-- The digests of the requests whose content the store itself digests. -/
structure RequestDigests where
  execute : SandboxId → CommandInput → Digest
  cancel : OperationId → Digest
  upload : SandboxId → UploadInput → Digest

/-! ### Requests -/

structure CreateSandbox where
  key : RequestKey
  requestDigest : Digest
  resources : GuestSize
  deriving DecidableEq

structure ExecuteRequest extends ExecuteCommand where
  idempotencyKey : String

structure CancelCommand where
  key : RequestKey
  target : OperationId
  deriving DecidableEq

structure DestroySandbox where
  key : RequestKey
  sandboxId : SandboxId
  requestDigest : Digest
  deriving DecidableEq

structure UploadRequest extends UploadCommand where
  idempotencyKey : String

inductive Request where
  | create (r : CreateSandbox)
  | execute (r : ExecuteRequest)
  | cancel (r : CancelCommand)
  | destroy (r : DestroySandbox)
  | upload (r : UploadRequest)

def ExecuteRequest.key (r : ExecuteRequest) : RequestKey :=
  { projectId := r.projectId, idempotencyKey := r.idempotencyKey }

def UploadRequest.key (r : UploadRequest) : RequestKey :=
  { projectId := r.projectId, idempotencyKey := r.idempotencyKey }

def Request.key : Request → RequestKey
  | .create r => r.key
  | .execute r => r.key
  | .cancel r => r.key
  | .destroy r => r.key
  | .upload r => r.key

def Request.digest (digests : RequestDigests) : Request → Digest
  | .create r => r.requestDigest
  | .execute r => digests.execute r.sandboxId r.command
  | .cancel r => digests.cancel r.target
  | .destroy r => r.requestDigest
  | .upload r => digests.upload r.sandboxId r.input

/-- The variants of the five admission results. Those that say that the key belongs to a request of
other content are one here. -/
inductive Answer where
  | accepted (operationId : OperationId)
  | responseExpired (operationId : OperationId)
  | conflict
  | unauthorized
  | invalid
  | imageDenied
  | invalidResources
  | notFound
  | gone
  | unsupported
  | notRunning
  | generationMismatch
  | invalidDeadline
  | capacity
  | busy (operationId : OperationId)
  | corrupt
  | failed (error : DispatchError)
  deriving DecidableEq, Repr

/-! ### What statements read -/

/-- The target of a cancellation. -/
structure TargetRow where
  sandboxId : SandboxId
  kind : Kind
  status : Status
  executionAllocationId : Option AllocationId
  deriving DecidableEq, Repr

/-- The active transition that a destroy may supersede. -/
structure PreviousRow where
  kind : Kind
  status : Status
  attemptCount : ℤ
  deriving DecidableEq, Repr

/-- Retained uploads and their bytes: everywhere, of the project and of the allocation. -/
structure UploadCounts where
  total : ℤ
  bytes : ℤ
  projectCount : ℤ
  projectBytes : ℤ
  allocationCount : ℤ
  allocationBytes : ℤ
  deriving DecidableEq, Repr

/-- The rest of the database at one statement, and the identities that are generated there. -/
structure View where
  now : Time
  /-- The project is active and the key of the request valid. -/
  authorized : Bool
  /-- What controllers made of the operation that is looked up. -/
  status : Status
  responseExpiresAt : Option Time
  imageAllowed : Bool
  sandbox : Option SandboxRow
  allocation : Allocation
  target : Option TargetRow
  previous : Option PreviousRow
  pendingCancel : Option OperationId
  activeExecution : Option OperationId
  activeUpload : Bool
  /-- The allocation and its host are ready and current. -/
  ready : Bool
  hasCapacity : Bool
  uploads : UploadCounts
  /-- What the committing statement checks again still holds. -/
  still : Bool
  newOperation : OperationId
  newSandbox : SandboxId
  newAttempt : OperationId

def idle (holder : Option OperationId) : Except Answer Unit :=
  match holder with
  | none => .ok ()
  | some id => .error (.busy id)

def ExecuteRequest.check (r : ExecuteRequest) (v : View) : Except Answer Unit := do
  let sandbox ← okOr v.sandbox .notFound
  ensure (sandbox.desiredState ≠ .destroyed) .gone
  ensure (∀ expected ∈ r.command.expectedGeneration, expected = sandbox.generation) .generationMismatch
  idle sandbox.activeTransitionOperationId
  ensure (sandbox.observedState = .running) .notRunning
  ensure (sandbox.currentAllocationId ≠ none) .notRunning
  idle v.activeExecution
  ensure ((1 ≤ r.command.deadlineUnixMs - ms v.now ∧
    r.command.deadlineUnixMs - ms v.now ≤ MAX_DURATION_MS) ∧
    ∀ t ∈ sandbox.expiresAt, v.now < t) .invalidDeadline
  ensure (∀ t ∈ sandbox.expiresAt, r.command.deadlineUnixMs * 1000 ≤ t) .invalidDeadline
  ensure (v.ready = true) .notRunning
  ensure (v.hasCapacity = true) .capacity
  ensure (v.still = true) (.failed .conflict)

/-- The sandbox of the execution that is to be cancelled. -/
def CancelCommand.check (v : View) : Except Answer SandboxId := do
  let target ← okOr v.target .notFound
  ensure (target.kind = .execute) .unsupported
  ensure (target.status.Terminal ∨ target.executionAllocationId ≠ none) .unsupported
  idle v.pendingCancel
  ensure (v.still = true) (.failed .conflict)
  pure target.sandboxId

/-- `Busy` with the first operation there is. -/
def busyWith (current active : Option OperationId) : Answer :=
  match current.or active with
  | some id => .busy id
  | none => .failed .conflict

/-- `active` is the transition that was discovered before the project was locked. -/
def DestroySandbox.check (active : Option OperationId) (v : View) : Except Answer Unit := do
  let sandbox ← okOr v.sandbox (.failed .conflict)
  let current := sandbox.activeTransitionOperationId
  let previous := active.bind fun _ => v.previous
  ensure (current = active) (busyWith current active)
  ensure (∀ op ∈ previous, op.kind = .create ∧ op.status = .unknown) (busyWith active none)
  ensure (v.authorized = true) .unauthorized
  ensure (sandbox.currentAllocationId ≠ none ∨ sandbox.observedState = .destroyed ∨
    sandbox.generation = 0 ∧ ∃ op ∈ previous, op.attemptCount = 0) (.failed .conflict)

/-- The service's budget of retained uploads, the project's and the allocation's. -/
def UploadCounts.Room (counts : UploadCounts) (size : ℕ) : Prop :=
  (counts.total < 1024 ∧ counts.bytes + size ≤ 1024 * 1024 * 1024) ∧
    (counts.projectCount < 128 ∧ counts.projectBytes + size ≤ 256 * 1024 * 1024) ∧
    counts.allocationCount < 16 ∧ counts.allocationBytes + size ≤ 64 * 1024 * 1024

instance (counts : UploadCounts) (size : ℕ) : Decidable (counts.Room size) :=
  inferInstanceAs (Decidable ((_ ∧ _) ∧ (_ ∧ _) ∧ _ ∧ _))

/-- The plan of the new upload. -/
def UploadRequest.check (r : UploadRequest) (v : View) : Except Answer SourcePlan := do
  let sandbox ← okOr v.sandbox .notFound
  ensure (sandbox.desiredState = .running ∧ sandbox.observedState = .running ∧
    sandbox.activeTransitionOperationId = none) .notRunning
  ensure (sandbox.currentAllocationId ≠ none) .notRunning
  ensure (v.allocation.generation = sandbox.generation) .notRunning
  ensure (v.activeUpload = false) .conflict
  ensure (v.uploads.Room r.input.size) .capacity
  let deadline := min (v.now + seconds 600) (sandbox.expiresAt.getD (v.now + seconds 600))
  ensure (v.now < deadline) .notRunning
  let plan := admittedPlan r.toUploadCommand v.newOperation v.newAttempt v.allocation v.now deadline
  plan.validate.mapError fun _ => .failed .invalidData
  pure plan

/-! ### The rows that are inserted -/

def CreateSandbox.row (r : CreateSandbox) (id : OperationId) (sandboxId : SandboxId) : AdmittedOperation :=
  { id, key := r.key, sandboxId, kind := .create, requestDigest := r.requestDigest,
    digestVersion := DIGEST_VERSION, targetOperationId := none, plan := none }

def ExecuteRequest.row (digests : RequestDigests) (r : ExecuteRequest) (id : OperationId) :
    AdmittedOperation :=
  { id, key := r.key, sandboxId := r.sandboxId, kind := .execute
    requestDigest := digests.execute r.sandboxId r.command, digestVersion := DIGEST_VERSION,
    targetOperationId := none, plan := none }

def CancelCommand.row (digests : RequestDigests) (r : CancelCommand) (id : OperationId)
    (sandboxId : SandboxId) : AdmittedOperation :=
  { id, key := r.key, sandboxId, kind := .cancel, requestDigest := digests.cancel r.target,
    digestVersion := DIGEST_VERSION, targetOperationId := some r.target, plan := none }

def DestroySandbox.row (r : DestroySandbox) (id : OperationId) : AdmittedOperation :=
  { id, key := r.key, sandboxId := r.sandboxId, kind := .destroy, requestDigest := r.requestDigest,
    digestVersion := DIGEST_VERSION, targetOperationId := none, plan := none }

/-- Its `file_uploads` row follows. -/
def UploadRequest.row (digests : RequestDigests) (r : UploadRequest) (id : OperationId) : AdmittedOperation :=
  { id, key := r.key, sandboxId := r.sandboxId, kind := .fileWrite
    requestDigest := digests.upload r.sandboxId r.input, digestVersion := DIGEST_VERSION,
    targetOperationId := none, plan := none }

/-! ### Requests in flight -/

/-- How far the statements of a request got. -/
inductive Stage where
  | begun
  /-- Nothing was found under the key, and nothing is locked. -/
  | absent
  /-- The active transition of the sandbox that is to be destroyed. -/
  | discovered (active : Option OperationId)
  | sharing (sandbox : SandboxId)
  | locked (active : Option OperationId)
  /-- Nothing was found under the key, while the project is locked. -/
  | missed (active : Option OperationId)
  | inserted (row : AdmittedOperation) (plan : Option SourcePlan)
  | completed (row : AdmittedOperation)
  /-- The insertion violated the key and everything was rolled back. -/
  | violated
  | finished (answer : Answer)

structure Serving where
  request : Request
  stage : Stage
  /-- An insertion of this request lost the race for its key. -/
  lost : Bool

def Request.creates : Request → Bool
  | .create _ => true
  | _ => false

def Stage.pending : Stage → Option AdmittedOperation
  | .inserted row _ => some row
  | .completed row => some row
  | _ => none

/-- How a stage holds the project: the foreign key of a new sandbox shares it. -/
def Serving.hold (p : Serving) : Hold :=
  match p.stage with
  | .sharing _ => .share
  | .locked _ | .missed _ => .exclusive
  | .inserted _ _ | .completed _ => if p.request.creates then .share else .exclusive
  | _ => .none

structure Database where
  operations : List AdmittedOperation := []
  /-- The sandboxes that were created. -/
  sandboxes : List SandboxId := []
  requests : AList fun _ : RequestId => Serving := ∅

def Database.lookup (s : Database) (key : RequestKey) : Option AdmittedOperation :=
  s.operations.find? fun row => row.key = key

/-- What one statement comes to. -/
inductive Move where
  | wait
  | next (stage : Stage)
  | violated
  | done (answer : Answer)
  | commit (row : AdmittedOperation) (sandboxes : List SandboxId)

/-- The holds of the others on a project. -/
def Database.Free (s : Database) (i : RequestId) (project : ProjectId) (bars : Hold → Prop) : Prop :=
  ∀ entry ∈ s.requests.entries, entry.1 ≠ i → entry.2.request.key.projectId = project →
    ¬bars entry.2.hold

instance (s : Database) (i : RequestId) (project : ProjectId) (bars : Hold → Prop) [DecidablePred bars] :
    Decidable (s.Free i project bars) :=
  List.decidableBAll (fun entry : Σ _ : RequestId, Serving => entry.1 ≠ i →
    entry.2.request.key.projectId = project → ¬bars entry.2.hold) s.requests.entries

/-- `SELECT … FROM projects WHERE id = $1 FOR UPDATE` -/
def Database.lockProject (s : Database) (i : RequestId) (project : ProjectId) (granted : Move) : Move :=
  if s.Free i project (· ≠ .none) then granted else .wait

/-- `INSERT INTO sandboxes`, whose foreign key shares the row of the project. -/
def Database.insertSandbox (s : Database) (i : RequestId) (project : ProjectId) (sandbox : SandboxId) :
    Move :=
  if s.Free i project (· = .exclusive) then .next (.sharing sandbox) else .wait

/-- `INSERT INTO operations`: it fails on a committed row of the key, and waits for the end of a
transaction that inserted one. -/
def Database.insertOperation (s : Database) (i : RequestId) (row : AdmittedOperation)
    (plan : Option SourcePlan) : Move :=
  if ∃ other ∈ s.operations, other.key = row.key then .violated
  else if ∃ entry ∈ s.requests.entries, entry.1 ≠ i ∧ ∃ other ∈ entry.2.stage.pending, other.key = row.key
  then .wait
  else .next (.inserted row plan)

/-! ### Statements -/

/-- `status IN ('succeeded','failed','cancelled') AND response_expires_at <= clock_timestamp()` -/
def View.ResponseExpired (v : View) : Prop := v.status.Terminal ∧ ∃ t ∈ v.responseExpiresAt, t ≤ v.now

instance (v : View) : Decidable v.ResponseExpired := inferInstanceAs (Decidable (_ ∧ ∃ t ∈ _, _))

/-- `existing`: the answer of an operation that is recorded under the key. -/
def AdmittedOperation.existing (row : AdmittedOperation) (digest : Digest) (v : View) : Answer :=
  if row.requestDigest ≠ digest ∨ row.digestVersion ≠ DIGEST_VERSION then .conflict
  else if v.ResponseExpired then .responseExpired row.id
  else .accepted row.id

/-- The plan of a recorded upload is the one of this request. -/
def UploadRequest.Recorded (r : UploadRequest) (row : AdmittedOperation) (plan : SourcePlan) : Prop :=
  plan.validate = .ok () ∧ plan.upload.operationId = row.id ∧ UploadInput.fromPlan plan = r.input ∧
    plan.owner.scope.projectId = r.projectId ∧ plan.owner.scope.sandboxId = r.sandboxId

instance (r : UploadRequest) (row : AdmittedOperation) (plan : SourcePlan) :
    Decidable (r.Recorded row plan) := inferInstanceAs (Decidable (_ ∧ _))

def UploadRequest.existing (digests : RequestDigests) (r : UploadRequest) (row : AdmittedOperation)
    (v : View) : Answer :=
  if row.requestDigest ≠ digests.upload r.sandboxId r.input ∨ row.digestVersion ≠ DIGEST_VERSION then
    .conflict
  else if v.ResponseExpired then .responseExpired row.id
  else
    match row.plan with
    | none => .failed .query
    | some plan => if r.Recorded row plan then .accepted row.id else .failed .invalidData

/-- The answer of the row under the key, or the next statement. -/
def Database.resolve (s : Database) (key : RequestKey) (existing : AdmittedOperation → Answer)
    (absent : Move) : Move :=
  match s.lookup key with
  | some row => .done (existing row)
  | none => absent

/-- `admit_create_sandbox` -/
def CreateSandbox.step (s : Database) (i : RequestId) (r : CreateSandbox) (stage : Stage) (v : View) : Move :=
  let existing := fun row : AdmittedOperation => row.existing r.requestDigest v
  match stage with
  | .begun => s.resolve r.key existing (.next .absent)
  | .absent =>
    if v.imageAllowed = false then .done .imageDenied
    else if ¬r.resources.Supported then .done .invalidResources
    else s.insertSandbox i r.key.projectId v.newSandbox
  | .sharing sandbox => s.insertOperation i (r.row v.newOperation sandbox) none
  | .inserted row _ => .commit row [row.sandboxId]
  | .violated => s.resolve r.key existing (.done .corrupt)
  | _ => .wait

/-- `admit_execute` -/
def ExecuteRequest.step (enc : CommandEncoding) (digests : RequestDigests) (s : Database) (i : RequestId)
    (r : ExecuteRequest) (stage : Stage) (v : View) : Move :=
  let existing := fun row : AdmittedOperation => row.existing (digests.execute r.sandboxId r.command) v
  match stage with
  | .begun =>
    if r.command.validate enc ≠ .ok () then .done .invalid
    else s.lockProject i r.projectId (if v.authorized then .next (.locked none) else .done .unauthorized)
  | .locked _ => s.resolve r.key existing (.next (.missed none))
  | .missed _ =>
    match r.check v with
    | .error answer => .done answer
    | .ok _ => s.insertOperation i (r.row digests v.newOperation) none
  | .inserted row _ => .commit row []
  | .violated => s.resolve r.key existing (.done (.failed .conflict))
  | _ => .wait

/-- `admit_cancel`, which starts over where it lost the race, once. -/
def CancelCommand.step (digests : RequestDigests) (s : Database) (i : RequestId) (r : CancelCommand)
    (lost : Bool) (stage : Stage) (v : View) : Move :=
  match stage with
  | .begun =>
    s.lockProject i r.key.projectId (if v.authorized then .next (.locked none) else .done .unauthorized)
  | .locked _ => s.resolve r.key (fun row => row.existing (digests.cancel r.target) v) (.next (.missed none))
  | .missed _ =>
    match CancelCommand.check v with
    | .error answer => .done answer
    | .ok sandbox =>
      match s.insertOperation i (r.row digests v.newOperation sandbox) none with
      | .violated => if lost then .done (.failed .query) else .violated
      | move => move
  | .inserted row _ => .commit row []
  | .violated => .next .begun
  | _ => .wait

/-- `admit_destroy` -/
def DestroySandbox.step (s : Database) (i : RequestId) (r : DestroySandbox) (stage : Stage) (v : View) : Move :=
  let existing := fun row : AdmittedOperation => row.existing r.requestDigest v
  match stage with
  | .begun => s.resolve r.key existing (.next .absent)
  | .absent =>
    match v.sandbox with
    | none => .done .notFound
    | some sandbox => .next (.discovered sandbox.activeTransitionOperationId)
  | .discovered active => s.lockProject i r.key.projectId (.next (.locked active))
  | .locked active => s.resolve r.key existing (.next (.missed active))
  | .missed active =>
    match DestroySandbox.check active v with
    | .error answer => .done answer
    | .ok _ => s.insertOperation i (r.row v.newOperation) none
  | .inserted row _ => .commit row []
  | .violated => s.resolve r.key existing (.done (.failed .conflict))
  | _ => .wait

/-- `admit_upload`, which hands a violation on as the error it is. -/
def UploadRequest.step (digests : RequestDigests) (s : Database) (i : RequestId) (r : UploadRequest)
    (stage : Stage) (v : View) : Move :=
  match stage with
  | .begun =>
    if ¬(r.input.forOperation v.newOperation).Valid then .done .invalid
    else s.lockProject i r.projectId (if v.authorized then .next (.locked none) else .done .unauthorized)
  | .locked _ => s.resolve r.key (fun row => r.existing digests row v) (.next (.missed none))
  | .missed _ =>
    match r.check v with
    | .error answer => .done answer
    | .ok plan => s.insertOperation i (r.row digests v.newOperation) (some plan)
  | .inserted row plan => .next (.completed { row with plan })
  -- the rows are eligible at once, or they are not committed
  | .completed row => if v.still then .commit row [] else .done .notRunning
  | .violated => .done (.failed .query)
  | _ => .wait

def Serving.move (enc : CommandEncoding) (digests : RequestDigests) (s : Database) (i : RequestId)
    (p : Serving) (v : View) : Move :=
  match p.request with
  | .create r => r.step s i p.stage v
  | .execute r => r.step enc digests s i p.stage v
  | .cancel r => r.step digests s i p.lost p.stage v
  | .destroy r => r.step s i p.stage v
  | .upload r => r.step digests s i p.stage v

def Database.set (s : Database) (i : RequestId) (p : Serving) : Database :=
  { s with requests := s.requests.insert i p }

def Database.apply (s : Database) (i : RequestId) (p : Serving) : Move → Database
  | .wait => s
  | .next stage => s.set i { p with stage }
  | .violated => s.set i { p with stage := .violated, lost := true }
  | .done answer => s.set i { p with stage := .finished answer }
  | .commit row sandboxes =>
    { s.set i { p with stage := .finished (.accepted row.id) } with
      operations := s.operations ++ [row]
      sandboxes := s.sandboxes ++ sandboxes }

inductive AdmissionEvent where
  | begin (i : RequestId) (r : Request)
  | statement (i : RequestId) (v : View)

/-- A new request, or the next statement of one. -/
def admissionStep (enc : CommandEncoding) (digests : RequestDigests) (s : Database) : AdmissionEvent → Database
  | .begin i r => if i ∈ s.requests then s else s.set i { request := r, stage := .begun, lost := false }
  | .statement i v =>
    match s.requests.lookup i with
    | none => s
    | some p => s.apply i p (p.move enc digests s i v)

end HudsonSandbox.Store
