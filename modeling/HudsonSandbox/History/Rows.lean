import HudsonSandbox.History.Eligible
import HudsonSandbox.Library.Reservation
import HudsonSandbox.Protocol.Admission
import HudsonSandbox.Protocol.HostRequests

/-!
# The rows of one allocation

The commands and uploads that are pinned to an allocation, the prefixes of them that retirement
reserved on its live host or after its release, and the admissions that take the next identity.
-/

namespace HudsonSandbox.History
open Checked GuestModel Command LiveOutput Store Uploads Supervisor SupervisorFiles Files FileSources
  Artifacts Prefixes

/-- The digests and canonical texts that the rows of both domains are checked with. -/
structure Encodings where
  commands : CommandEncoding
  hash : Output.OutputPlan → String
  sources : Encoding
  request : SandboxId → UploadInput → BitVec 256
  file : FileEncoding

/-- `LIMIT` of the scans of a domain; one row more is read where a prefix is checked again. -/
def Domain.max : Domain → ℕ
  | .commands => 33
  | .files => 17

/-- The `allocation_history` row of a domain. -/
structure HistoryRow extends Reservation OperationId where
  claimRevision : ℤ
  leaseExpiresAt : Option Time
  nextRetryAt : Option Time
  context : Option GuestModel.Context
  request : Option HistoryRequest
  completion : Option HistoryObservation
  completedAt : Option Time

/-- The `released_allocation_history` row of a domain. -/
structure ReleasedRow extends Reservation OperationId where
  startAfter : Option OperationId
  context : Option GuestModel.Context
  claimRevision : ℤ
  reportingEpoch : ℤ
  leaseExpiresAt : Option Time
  nextRetryAt : Option Time
  request : Option ReleasedHistoryRequest
  completion : Option ReleasedHistoryObservation
  completedAt : Option Time

/-! ### Acknowledged prefixes -/

/-- The owner under which a host serves the retirement of its allocation. -/
def leaseOwner (a : PinnedAllocation) (revision expires : ℤ) : LeaseOwnership :=
  { hostId := a.hostId, projectId := a.projectId, sandboxId := a.sandboxId, allocationId := a.id,
    generation := a.generation, supervisorEpoch := a.supervisorEpoch, revision,
    claimExpiresUnixMs := expires }

/-- Who asked for an acknowledged retirement, and when the host observed it. -/
def OwnedBy (a : PinnedAllocation) (owner : Option LeaseOwnership) (claimRevision observed : ℤ) : Prop :=
  ∃ o ∈ owner, o = leaseOwner a o.revision o.claimExpiresUnixMs ∧
    (1 ≤ o.revision ∧ o.revision ≤ claimRevision) ∧ 0 < observed ∧ observed ≤ o.claimExpiresUnixMs

instance (a : PinnedAllocation) (owner : Option LeaseOwnership) (claimRevision observed : ℤ) :
    Decidable (OwnedBy a owner claimRevision observed) :=
  inferInstanceAs (Decidable (∃ o ∈ owner, _))

def HistoryRow.Acknowledged (h : HistoryRow) (a : PinnedAllocation) (domain : Domain)
    (through : OperationId) : Prop :=
  ∃ completion ∈ h.completion, ∃ context ∈ h.context,
    completion.request.barrier = some completion.completed ∧
    completion.completed = { version := 1, context, domain, through } ∧
    context.allocationId = a.id ∧ context.generation = a.generation ∧
    (1 ≤ context.bootId.length ∧ context.bootId.length ≤ 64) ∧
    OwnedBy a completion.request.ownership h.claimRevision completion.observedUnixMs

instance (h : HistoryRow) (a : PinnedAllocation) (domain : Domain) (through : OperationId) :
    Decidable (h.Acknowledged a domain through) :=
  inferInstanceAs (Decidable (∃ completion ∈ h.completion, ∃ context ∈ h.context, _))

/-- The row that `completed_live_allocation_history` shows. -/
def HistoryRow.verified (h : HistoryRow) (a : PinnedAllocation) (domain : Domain) : Option OperationId :=
  h.completedThrough.filter fun through => h.Acknowledged a domain through

def ReleasedRow.Acknowledged (h : ReleasedRow) (a : PinnedAllocation) (view : AllocationView)
    (domain : Domain) (through : OperationId) : Prop :=
  view.status = .released ∧ view.releasedAt ≠ none ∧ ∃ completion ∈ h.completion,
    completion.completedThrough = through ∧ completion.request.through = some through ∧
    completion.request.domain = some domain ∧
    (a.supervisorEpoch ≤ completion.request.reportingEpoch ∧
      completion.request.reportingEpoch ≤ h.reportingEpoch) ∧
    completion.request.reportingEpoch ≤ view.hostEpoch ∧
    (completion.releaseState = .released ∨ completion.releaseState = .fencedAbsent) ∧
    OwnedBy a completion.request.ownership h.claimRevision completion.observedUnixMs

instance (h : ReleasedRow) (a : PinnedAllocation) (view : AllocationView) (domain : Domain)
    (through : OperationId) : Decidable (h.Acknowledged a view domain through) :=
  inferInstanceAs (Decidable (_ ∧ _ ∧ ∃ completion ∈ h.completion, _))

/-- The row that `completed_released_allocation_history` shows. -/
def ReleasedRow.verified (h : ReleasedRow) (a : PinnedAllocation) (view : AllocationView)
    (domain : Domain) : Option OperationId :=
  h.completedThrough.filter fun through => h.Acknowledged a view domain through

/-! ### The tables -/

structure AllocationRows where
  allocation : PinnedAllocation
  view : AllocationView
  lastAdmitted : Option OperationId
  commands : List CommandRow
  uploads : List FileRow
  live : Domain → Option HistoryRow
  released : Domain → Option ReleasedRow
  /-- There is an `allocation_retirements` row. -/
  retired : Bool

/-- An allocation that was just placed. -/
def AllocationRows.placed (allocation : PinnedAllocation) (view : AllocationView) : AllocationRows :=
  { allocation, view, lastAdmitted := none, commands := [], uploads := [], live := fun _ => none,
    released := fun _ => none, retired := false }

namespace AllocationRows

def verifiedLive (s : AllocationRows) (domain : Domain) : Option OperationId :=
  (s.live domain).bind fun h => h.verified s.allocation domain

def verifiedReleased (s : AllocationRows) (domain : Domain) : Option OperationId :=
  (s.released domain).bind fun h => h.verified s.allocation s.view domain

/-- The row that `completed_allocation_history` shows: the higher one of the two. -/
def completed (s : AllocationRows) (domain : Domain) : Option OperationId :=
  match s.verifiedLive domain, s.verifiedReleased domain with
  | some live, some released => some (Max.max live released)
  | live, released => live.or released

/-! ### Admission -/

/-- Every `reserved_through` of the allocation. -/
def reserved (s : AllocationRows) : List OperationId :=
  ([Domain.commands, .files].filterMap fun d => (s.live d).map fun h => h.reservedThrough) ++
    [Domain.commands, .files].filterMap fun d => (s.released d).map fun h => h.reservedThrough

/-- `floor.map_or(value, |f| f.max(value))` -/
def raise (floor : Option OperationId) (value : OperationId) : Option OperationId :=
  some (floor.elim value fun f => Max.max f value)

def floor (s : AllocationRows) : Option OperationId := s.reserved.foldl raise s.lastAdmitted

def nextOperation (s : AllocationRows) (candidate : OperationId) :
    Except DispatchError (AllocationRows × OperationId) := do
  ensure (s.retired = false) .conflict
  let id ← (advanceOperationId candidate s.floor).mapError fun _ => .invalidData
  pure ({ s with lastAdmitted := some id }, id)

section Admission
variable (enc : Encodings)

/-- `try_admit_execute` from the check for an active command. `ready` stands for what it asks of the
project, the key, the sandbox and the host; any answer but the acceptance commits nothing. -/
def admitExecute (s : AllocationRows) (r : ExecuteCommand) (candidate : OperationId) (ready : Bool)
    (now : ℕ) : Except DispatchError (AllocationRows × OperationId) := do
  ensure (ready = true) .unauthorized
  ensure (∀ row ∈ s.commands, row.op.status.Terminal) .conflict
  let capacity ← hasCapacity enc.commands s.commands s.allocation.id (s.completed .commands)
    (some r.command.outputLimit)
  ensure (capacity = true) .conflict
  let (s, id) ← s.nextOperation candidate
  let row ← okOr (Store.admitExecute enc.commands r id s.allocation now) .conflict
  pure ({ s with commands := s.commands ++ [.admitted row] }, id)


/-- The columns that an upload's rows copy of their allocation. -/
def columns (a : PinnedAllocation) : Allocation :=
  { id := a.id, projectId := a.projectId, sandboxId := a.sandboxId, hostId := a.hostId,
    generation := a.generation, supervisorEpoch := a.supervisorEpoch }

/-- `admit_upload` from the check for an active upload. `ready` stands for the conditions of the
other tables, the totals of the project and of all allocations among them. -/
def admitUpload (s : AllocationRows) (r : UploadCommand) (candidate attempt : OperationId)
    (ready : Bool) (now : Time) (expiresAt : Option Time) :
    Except DispatchError (AllocationRows × OperationId) := do
  ensure (ready = true) .unauthorized
  ensure (∀ row ∈ s.uploads, row.op.status.Terminal) .conflict
  let held := s.uploads.filter fun row => Above (s.completed .files) row.file.operationId
  ensure (held.length < 16 ∧ (held.map fun row => row.file.size).sum + r.input.size ≤ 64 * 1024 * 1024)
    .conflict
  let (s, id) ← s.nextOperation candidate
  let row ← Store.admitUpload enc.request r id attempt (columns s.allocation) now expiresAt
  ensure (Eligible row ready now) .conflict
  pure ({ s with uploads := s.uploads ++ [.admitted row] }, id)

end Admission

/-! ### Scans -/

/-- A pinned operation as a scan finds it: whether it is eligible, and with which guest. -/
structure Entry where
  id : OperationId
  found : Except HistoryError (Option (Option GuestModel.Context))

section Scans
variable (enc : Encodings)

def entries (s : AllocationRows) (domain : Domain) (allowSimulated : Bool) : List Entry :=
  match domain with
  | .commands => s.commands.map fun row =>
    { id := row.op.id, found := eligibleCommand enc.commands enc.hash row allowSimulated }
  | .files => s.uploads.map fun row =>
    { id := row.op.id, found := eligibleFile enc.sources enc.request enc.file row allowSimulated }

/-- `id>$2 AND id<=$3 ORDER BY id LIMIT`, where a missing bound does not restrict. -/
def select (entries : List Entry) (after through : Option OperationId) (limit : ℕ) : List Entry :=
  ((entries.filter fun e => Above after e.id ∧ ∀ t ∈ through, e.id ≤ t).mergeSort
    fun a b => decide (a.id ≤ b.id)).take limit

/-- The longest eligible beginning of a scan whose receipts all come from one guest. -/
def extend : List Entry → Option GuestModel.Context →
    Except HistoryError (Option OperationId × Option GuestModel.Context)
  | [], guest => pure (none, guest)
  | e :: rest, guest => do
    match ← e.found with
    | none => pure (none, guest)
    | some found =>
      ensure (∀ c ∈ found, ∀ known ∈ guest, known = c) .evidence
      let (through, guest) ← extend rest (found.or guest)
      pure (some (through.getD e.id), guest)

/-- A scan that has to be exactly the reserved prefix. -/
def Spans (rows : List Entry) (domain : Domain) (through : OperationId) : Prop :=
  rows ≠ [] ∧ rows.length ≤ domain.max ∧ rows.getLast?.map Entry.id = some through

instance (rows : List Entry) (domain : Domain) (through : OperationId) :
    Decidable (Spans rows domain through) := inferInstanceAs (Decidable (_ ∧ _))

end Scans
end AllocationRows
end HudsonSandbox.History
