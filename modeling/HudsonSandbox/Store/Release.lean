import HudsonSandbox.Store.Transitions

/-!
# Release evidence

What retirement reads back from the lifecycle rows: the evidence that a released allocation was
released legitimately. Below it, the lifecycle transactions as one system.
-/

namespace HudsonSandbox.Store
open Checked LiveOutput Supervisor AllocationAuthority Run

inductive RetirementError where
  | ineligible | evidence
  deriving DecidableEq, Repr

def LifecycleOperation.Finished (op : LifecycleOperation) : Prop :=
  op.status.Terminal ∧ op.completedAt ≠ none ∧ op.leaseExpiresAt = none ∧ op.nextRetryAt = none

instance (op : LifecycleOperation) : Decidable op.Finished := inferInstanceAs (Decidable (_ ∧ _))

/-- `create_valid`: the permit's own create is over. -/
def Lifecycle.CreateValid (s : Lifecycle) (p : Permit) : Prop :=
  ∃ op ∈ s.op p.createOperation, op.projectId = p.project ∧ op.sandboxId = p.sandbox ∧
    op.kind = .create ∧ op.Finished

instance (s : Lifecycle) (p : Permit) : Decidable (s.CreateValid p) :=
  inferInstanceAs (Decidable (∃ op ∈ s.op p.createOperation, _))

/-- The last claim whose holder may have written the evidence, and the epoch that observed it. -/
def LifecycleEvidence.Bounded (e : LifecycleEvidence) (row : LifecycleOperation) (p : Permit) (epoch : ℤ) : Prop :=
  0 < row.attemptCount ∧ (∀ v ∈ e.reportingEpoch, p.originalEpoch ≤ v ∧ v ≤ epoch) ∧
    (∀ v ∈ e.claimRevision, v ≤ row.claimRevision) ∧ e.generation = some p.generation ∧
    e.supervisorEpoch = some p.originalEpoch ∧ (∃ v ∈ e.observedUnixMs, 0 < v) ∧
    ∃ v ∈ e.claimRevision, 0 < v

instance (e : LifecycleEvidence) (row : LifecycleOperation) (p : Permit) (epoch : ℤ) :
    Decidable (e.Bounded row p epoch) :=
  inferInstanceAs (Decidable (_ ∧ (∀ v ∈ e.reportingEpoch, _) ∧ (∀ v ∈ e.claimRevision, _) ∧ _ ∧ _ ∧
    (∃ v ∈ e.observedUnixMs, _) ∧ ∃ v ∈ e.claimRevision, _))

/-- Whether the release was simulated, once its phase is one that releases an allocation. -/
def releaseSimulated (release : LifecycleEvidence) (row : LifecycleOperation) (p : Permit) (epoch : ℤ) :
    Except RetirementError Bool :=
  match release.phase with
  | .rejectedBeforeDispatch => do
    ensure (release.operationId = some p.createOperation ∧
      release.dispatchIntentAbsent = some true ∧ row.attemptCount = 0 ∧ row.status = .failed ∧
      row.phase = some .rejectedBeforeDispatch) .evidence
    pure false
  | .allocationReleased => do
    ensure (release.hostId = some p.host ∧ release.projectId = some p.project ∧
      release.sandboxId = some p.sandbox ∧ release.allocationId = some p.allocation) .evidence
    ensure (release.Bounded row p epoch) .evidence
    okOr release.simulated .evidence
  | _ => .error .evidence

/-- `evidence::release` -/
def release (s : Lifecycle) (a : AllocationRow) (p : Permit) (allowSimulated : Bool) (epoch : ℤ) :
    Except RetirementError (LifecycleEvidence × Bool) := do
  ensure (a.status = .released ∧ a.releasedAt ≠ none) .ineligible
  let release ← okOr a.releaseEvidence .evidence
  let operation ← okOr release.operationId .evidence
  let row ← okOr (s.op operation) .evidence
  ensure (row.projectId = p.project ∧ row.sandboxId = p.sandbox ∧
    (row.kind = .create ∨ row.kind = .destroy)) .evidence
  ensure (s.CreateValid p ∧ (row.kind = .create → operation = p.createOperation) ∧ row.Finished ∧
    release ∈ row.attemptReceipts) .evidence
  let simulated ← releaseSimulated release row p epoch
  ensure (simulated = true → allowSimulated = true) .evidence
  pure (release, simulated)

/-! ### The lifecycle as one system -/

inductive LifecycleEvent where
  | claimLifecycle (id : OperationId) (lease : ℤ) (now : Clock)
  | renewLifecycle (claim : Claim) (lease : ℤ) (now : Clock)
  | deferLifecycle (claim : Claim) (delay : ℤ) (now : Clock)
  | reserveCreate (claim : Claim) (id : AllocationId) (host : HostId) (expectedEpoch : ℤ)
      (checks : PlacementChecks) (now : Clock)
  | prepareCreateDispatch (claim : Claim) (checks : DispatchChecks) (now : Clock)
  | recordCreateUnknown (claim : Claim) (now : Clock)
  | recordCreateObservation (claim : Claim) (observation : Observation) (now : Clock)
  | rejectUndispatchedCreate (claim : Claim) (reason : CreateRejection) (now : Clock)
  | admitDestroy (id : OperationId) (authorized : Bool) (now : Clock)
  | prepareDestroy (claim : Claim) (retryStop : Bool) (now : Clock)
  | recordDestroyUnknown (claim : Claim) (now : Clock)
  | recordDestroyObservation (claim : Claim) (observation : Observation) (now : Clock)
  -- recovery after the host's epoch advanced
  | preparePreviousAllocation (claim : Claim) (host : HostId) (reportingEpoch : ℤ) (now : Clock)
  | recordPreviousUnknown (claim : Claim) (request : PreviousAllocationRequest) (now : Clock)
  | recordPreviousRelease (claim : Claim) (observation : PreviousAllocationObservation) (now : Clock)
  -- maintenance of the execution lease
  | claimAllocation (host : HostId) (epoch lease : ℤ) (now : Clock)
  | prepareLease (claim : AllocationClaim) (operation : OperationId) (projectActive : Bool)
      (now : Clock)
  | deferAllocation (claim : AllocationClaim) (now : Clock)
  | recordLeaseUnknown (claim : AllocationClaim) (now : Clock)
  | recordLeaseObservation (claim : AllocationClaim) (operation : OperationId)
      (observation : LeaseObservation) (projectActive : Bool) (now : Clock)
  | markHostRuntimeUnknown (host : HostId) (epoch : ℤ)
  | markPreviousEpochUnknown (host : HostId) (epoch : ℤ)
  | compactLifecycle (id : OperationId)
  | registerHost (host : HostId) (epoch : ℤ)

/-- One transaction under an unchanged simulation policy. -/
def lifecycleStep (allowSimulated : Bool) (s : Lifecycle) : LifecycleEvent → Lifecycle
  | .claimLifecycle id lease now => commit s (claimLifecycle s id lease now)
  | .renewLifecycle claim lease now => commit s (renewLifecycle s claim lease now)
  | .deferLifecycle claim delay now => commit s (deferLifecycle s claim delay now)
  | .reserveCreate claim id host expectedEpoch checks now =>
    commit s (reserveCreate s claim id host expectedEpoch checks now)
  | .prepareCreateDispatch claim checks now =>
    commit s ((prepareCreateDispatch s claim checks now).map Prod.fst)
  | .recordCreateUnknown claim now => commit s (recordCreateUnknown s claim now)
  | .recordCreateObservation claim observation now =>
    commit s (recordCreateObservation s claim observation allowSimulated now)
  | .rejectUndispatchedCreate claim reason now =>
    commit s (rejectUndispatchedCreate s claim reason now)
  | .admitDestroy id authorized now => commit s ((admitDestroy s id authorized now).map Prod.fst)
  | .prepareDestroy claim retryStop now =>
    commit s ((prepareDestroy s claim retryStop now).map Prod.fst)
  | .recordDestroyUnknown claim now => commit s (recordDestroyUnknown s claim now)
  | .recordDestroyObservation claim observation now =>
    commit s (recordDestroyObservation s claim observation allowSimulated now)
  | .preparePreviousAllocation claim host reportingEpoch now =>
    commit s ((preparePreviousAllocation s claim host reportingEpoch now).map Prod.fst)
  | .recordPreviousUnknown claim request now => commit s (recordPreviousUnknown s claim request now)
  | .recordPreviousRelease claim observation now =>
    commit s (recordPreviousRelease s claim observation allowSimulated now)
  | .claimAllocation host epoch lease now => commit s (claimAllocation s host epoch lease now)
  | .prepareLease claim operation projectActive now =>
    commit s ((prepareLease s claim operation projectActive now).map Prod.fst)
  | .deferAllocation claim now => commit s (deferAllocation s claim now)
  | .recordLeaseUnknown claim now => commit s (recordLeaseUnknown s claim now)
  | .recordLeaseObservation claim operation observation projectActive now =>
    commit s (recordLeaseObservation s claim operation observation projectActive allowSimulated now)
  | .markHostRuntimeUnknown host epoch => commit s (markHostRuntimeUnknown s host epoch)
  | .markPreviousEpochUnknown host epoch => commit s (markPreviousEpochUnknown s host epoch)
  | .compactLifecycle id => commit s (compactLifecycle s id)
  | .registerHost host epoch => commit s (registerHost s host epoch)

/-- A recovery does not record its release under a destroy that never dispatched a stop. -/
def StopDispatched (s : Lifecycle) : LifecycleEvent → Prop
  | .recordPreviousRelease claim _ now =>
    ∀ op ∈ s.op claim.operationId, op.Fenced claim now → op.kind = .destroy →
      op.phase = some .reconcilingPreviousEpoch → 0 < op.attemptCount
  | _ => True

instance (s : Lifecycle) (event : LifecycleEvent) : Decidable (StopDispatched s event) := by
  unfold StopDispatched
  split <;> infer_instance

def createRow (projectId : ProjectId) (sandboxId : SandboxId) (id : OperationId) : LifecycleOperation :=
  { id, projectId, sandboxId, kind := .create, status := .queued, claimRevision := 0,
    leaseExpiresAt := none, nextRetryAt := none, attemptCount := 0, completedAt := none,
    phase := none, supersedesOperationId := none, attemptReceipts := [] }

/-- `admit_create`: a sandbox is admitted with its create, under fresh identities. -/
def admitCreate (projectId : ProjectId) (sandboxId : SandboxId) (id : OperationId)
    (expiresAt : Option Time) (hostEpoch : HostId → ℤ) : Lifecycle where
  operations := [createRow projectId sandboxId id]
  sandbox :=
    { id := sandboxId, projectId, desiredState := .running, observedState := .creating,
      generation := 0, currentAllocationId := none, activeTransitionOperationId := some id,
      expiresAt }
  allocation := none
  permit := none
  hostEpoch

end HudsonSandbox.Store
