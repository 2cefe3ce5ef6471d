import HudsonSandbox.Library.Table
import HudsonSandbox.Protocol.AllocationRetirement
import HudsonSandbox.Protocol.Supervisor
import HudsonSandbox.Store.Operation

/-!
# Sandbox lifecycle rows

One sandbox in the database: its create and destroy operations, its row, its allocation with the
launch permit, and the epochs of the hosts. A transaction has one time, the one at which its last
statement checks the claim again: what that check finds held at every earlier statement too.
-/

namespace HudsonSandbox.Store
open Checked LiveOutput Supervisor AllocationAuthority

inductive LifecyclePhase where
  | queued | reserved | createDispatched | reconciling | reconciliationRequired | ready
  | releasedBeforeCompletion | rejectedBeforeDispatch | cleanupOwnedByDestroy
  | destroyedDuringCreate | admitted | stopDispatched | releaseUnconfirmed | destroyed
  | reconcilingPreviousEpoch | previousReleaseUnconfirmed
  deriving DecidableEq, Repr

inductive EvidenceKind where
  | reserved | createDispatchIntent | guestReady | stopDispatchIntent | allocationReleased
  | rejectedBeforeDispatch
  deriving DecidableEq, Repr

inductive CreateRejection where
  | hostEpochChanged | unauthorized | imageDenied | invalidResources
  deriving DecidableEq, Repr

/-- A JSON receipt or release; a key it does not have is `none`. -/
structure LifecycleEvidence where
  phase : EvidenceKind
  hostId : Option HostId := none
  projectId : Option ProjectId := none
  sandboxId : Option SandboxId := none
  operationId : Option OperationId := none
  allocationId : Option AllocationId := none
  generation : Option ℤ := none
  supervisorEpoch : Option ℤ := none
  claimRevision : Option ℤ := none
  simulated : Option Bool := none
  reportingEpoch : Option ℤ := none
  previousEpochRecovery : Option Bool := none
  fencedAbsent : Option Bool := none
  observedUnixMs : Option ℤ := none
  startCount : Option ℕ := none
  dispatchIntentAbsent : Option Bool := none
  code : Option CreateRejection := none
  deriving DecidableEq

/-- `supersedesOperationId` is the one key of the payload that a transaction reads again. -/
structure LifecycleOperation extends Operation where
  phase : Option LifecyclePhase
  supersedesOperationId : Option OperationId
  attemptReceipts : List LifecycleEvidence
  deriving DecidableEq

inductive DesiredState where
  | running | destroyed
  deriving DecidableEq, Repr

inductive ObservedState where
  | creating | running | destroying | destroyed | unknown
  deriving DecidableEq, Repr

structure SandboxRow where
  id : SandboxId
  projectId : ProjectId
  desiredState : DesiredState
  observedState : ObservedState
  generation : ℤ
  currentAllocationId : Option AllocationId
  activeTransitionOperationId : Option OperationId
  expiresAt : Option Time
  deriving DecidableEq

structure AllocationRow extends Allocation where
  status : AllocationStatus
  leaseExpiresAt : Option Time
  releaseEvidence : Option LifecycleEvidence
  releasedAt : Option Time
  maintenanceRevision : ℤ
  maintenanceLeaseUntil : Option Time
  maintenanceNextAt : Option Time
  renewalPending : Bool
  leaseRequestedUntil : Option Time
  deriving DecidableEq

/-- A sandbox is placed at most once, so it has at most one allocation and one permit. -/
structure Lifecycle where
  operations : List LifecycleOperation
  sandbox : SandboxRow
  allocation : Option AllocationRow
  permit : Option Permit
  hostEpoch : HostId → ℤ

namespace Lifecycle

def op (s : Lifecycle) (id : OperationId) : Option LifecycleOperation :=
  Table.find (fun row => row.id) s.operations id

def updateOperation (s : Lifecycle) (id : OperationId)
    (change : LifecycleOperation → LifecycleOperation) : List LifecycleOperation :=
  Table.update (fun row => row.id) s.operations id change

/-- `SELECT * FROM allocations WHERE id=$1 AND released_at IS NULL` -/
def unreleased (s : Lifecycle) (id : AllocationId) : Option AllocationRow :=
  s.allocation.filter fun a => a.id = id ∧ a.releasedAt = none

/-- The create that a destroy took over and still has to clean up after. -/
def Parked (s : Lifecycle) (previous : OperationId) : Prop :=
  ∃ row ∈ s.op previous, row.kind = .create ∧ row.phase = some .cleanupOwnedByDestroy

instance (s : Lifecycle) (previous : OperationId) : Decidable (s.Parked previous) :=
  inferInstanceAs (Decidable (∃ row ∈ s.op previous, _))

end Lifecycle

/-! ### The claim holder's view -/

structure Context where
  op : LifecycleOperation
  allocation : AllocationRow
  owner : Ownership

def contextOwner (op : LifecycleOperation) (allocation : AllocationRow) (claim : Claim) : Ownership :=
  { hostId := allocation.hostId, projectId := op.projectId, sandboxId := op.sandboxId,
    allocationId := allocation.id, operationId := op.id, generation := allocation.generation,
    supervisorEpoch := allocation.supervisorEpoch, claimRevision := claim.revision,
    claimExpiresUnixMs := ms (op.leaseExpiresAt.getD 0) }

/-- Which epoch of its host may speak for the allocation: its own, or a later current one. -/
def SpeaksFor (reportingEpoch : Option ℤ) (current epoch : ℤ) : Prop :=
  match reportingEpoch with
  | none => current = epoch
  | some e => current = e ∧ epoch < e

instance (reportingEpoch : Option ℤ) (current epoch : ℤ) :
    Decidable (SpeaksFor reportingEpoch current epoch) := by
  unfold SpeaksFor
  cases reportingEpoch <;> infer_instance

def contextAtEpoch (s : Lifecycle) (claim : Claim) (kind : Kind) (reportingEpoch : Option ℤ)
    (now : Time) : Except DispatchError Context := do
  let op ← okOr (s.op claim.operationId) .lostClaim
  ensure (op.Fenced claim now) .lostClaim
  ensure (kind = .destroy → ∀ previous ∈ op.supersedesOperationId, s.Parked previous) .conflict
  ensure (op.kind = kind ∧ s.sandbox.activeTransitionOperationId = some claim.operationId) .conflict
  let current ← okOr s.sandbox.currentAllocationId .conflict
  let allocation ← okOr (s.unreleased current) .conflict
  ensure (s.sandbox.generation = allocation.generation ∧
    SpeaksFor reportingEpoch (s.hostEpoch allocation.hostId) allocation.supervisorEpoch) .conflict
  pure { op, allocation, owner := contextOwner op allocation claim }

def Lifecycle.context (s : Lifecycle) (claim : Claim) (kind : Kind) (now : Time) :
    Except DispatchError Context :=
  contextAtEpoch s claim kind none now

def evidence (owner : Ownership) (simulated : Option Bool) (phase : EvidenceKind) : LifecycleEvidence :=
  { phase, hostId := some owner.hostId, projectId := some owner.projectId,
    sandboxId := some owner.sandboxId, operationId := some owner.operationId,
    allocationId := some owner.allocationId, generation := some owner.generation,
    supervisorEpoch := some owner.supervisorEpoch, claimRevision := some owner.claimRevision,
    simulated }

/-! ### Updates that several transactions make -/

def LifecycleOperation.receipt (op : LifecycleOperation) (entry : LifecycleEvidence) : LifecycleOperation :=
  { op with attemptReceipts := op.attemptReceipts ++ [entry] }

/-- The outcome is unknown: the claim ends and the row is retried after `delay`. -/
def LifecycleOperation.unknown (op : LifecycleOperation) (phase : LifecyclePhase) (delay : ℤ)
    (now : Time) : LifecycleOperation :=
  { op with
    status := .unknown, phase := some phase, leaseExpiresAt := none
    nextRetryAt := some (now + seconds delay) }

/-- The row is done: the claim ends with its last receipt. -/
def LifecycleOperation.complete (op : LifecycleOperation) (status : Status)
    (phase : LifecyclePhase) (entry : LifecycleEvidence) (now : Time) : LifecycleOperation :=
  { op.receipt entry with
    status, phase := some phase, completedAt := some now, leaseExpiresAt := none
    nextRetryAt := none }

/-- The create that the finished destroy had superseded. -/
def LifecycleOperation.destroyedDuringCreate (op : LifecycleOperation) (entry : LifecycleEvidence)
    (now : Time) : LifecycleOperation :=
  { op.receipt entry with
    status := .failed, phase := some .destroyedDuringCreate, completedAt := some now }

def AllocationRow.release (a : AllocationRow) (entry : LifecycleEvidence) (now : Time) : AllocationRow :=
  { a with status := .released, releasedAt := some now, releaseEvidence := some entry }

/-- The sandbox after its allocation was released. -/
def SandboxRow.destroy (row : SandboxRow) : SandboxRow :=
  { row with
    desiredState := .destroyed, observedState := .destroyed, currentAllocationId := none
    activeTransitionOperationId := none }

def SandboxRow.uncertain (row : SandboxRow) : SandboxRow := { row with observedState := .unknown }

end HudsonSandbox.Store
