import HudsonSandbox.Library.Run
import HudsonSandbox.Store.Lifecycle

/-!
# Lifecycle transactions

Every transaction that writes the lifecycle rows of one sandbox, from placement to release, with
the maintenance of the execution lease and the service's own cleanup.
-/

namespace HudsonSandbox.Store
open Checked LiveOutput Supervisor AllocationAuthority Run

/-! ### Claims -/

/-- A claim transaction on the columns that all operations share. -/
def updateLifecycleClaim (s : Lifecycle) (id : OperationId) (allowed : LifecycleOperation → Prop)
    [DecidablePred allowed] (change : Operation → Operation) : Except DispatchError Lifecycle := do
  let op ← okOr (s.op id) .lostClaim
  ensure (allowed op) .lostClaim
  pure { s with
    operations := s.updateOperation id fun row => { row with toOperation := change row.toOperation } }

def claimLifecycle (s : Lifecycle) (id : OperationId) (lease : ℤ) (now : Time) :
    Except DispatchError Lifecycle :=
  updateLifecycleClaim s id
    (fun op => op.Claimable now ∧ op.phase ≠ some .cleanupOwnedByDestroy) (·.claimNext lease now)

def renewLifecycle (s : Lifecycle) (claim : Claim) (lease : ℤ) (now : Time) :
    Except DispatchError Lifecycle :=
  updateLifecycleClaim s claim.operationId (fun op => op.Fenced claim now) (·.renewClaim lease now)

def deferLifecycle (s : Lifecycle) (claim : Claim) (delay : ℤ) (now : Time) :
    Except DispatchError Lifecycle :=
  updateLifecycleClaim s claim.operationId (fun op => op.Fenced claim now) (·.deferClaim delay now)

/-! ### Placement -/

inductive PlacementError where
  | lostClaim | unauthorized | reconcile | hostUnavailable | hostCompatibility | capacity | quota
  | invalidResources | query
  deriving DecidableEq, Repr

/-- What the database says of a first placement besides the rows themselves. -/
structure PlacementChecks where
  resources : Bool
  quota : Bool
  ready : Bool
  compatible : Bool
  authorized : Bool
  capacity : Bool
  serial : Option ℕ

def placedAllocation (op : LifecycleOperation) (id : AllocationId) (host : HostId) (epoch : ℤ) :
    AllocationRow :=
  { id, projectId := op.projectId, sandboxId := op.sandboxId, hostId := host, generation := 1,
    supervisorEpoch := epoch, status := .reserved, leaseExpiresAt := none, releaseEvidence := none,
    releasedAt := none, maintenanceRevision := 0, maintenanceLeaseUntil := none,
    maintenanceNextAt := none, renewalPending := false, leaseRequestedUntil := none }

def placedPermit (op : LifecycleOperation) (id : AllocationId) (host : HostId) (epoch : ℤ)
    (serial : ℕ) : Permit :=
  { host, project := op.projectId, sandbox := op.sandboxId, allocation := id,
    createOperation := op.id, generation := 1, originalEpoch := epoch, serial }

def placedEvidence (claim : Claim) (id : AllocationId) (epoch : ℤ) : LifecycleEvidence :=
  { phase := .reserved, allocationId := some id, generation := some 1,
    supervisorEpoch := some epoch, claimRevision := some claim.revision }

def Lifecycle.place (s : Lifecycle) (op : LifecycleOperation) (claim : Claim) (id : AllocationId)
    (host : HostId) (epoch : ℤ) (serial : ℕ) : Lifecycle :=
  { s with
    allocation := some (placedAllocation op id host epoch)
    permit := some (placedPermit op id host epoch serial)
    sandbox := { s.sandbox with currentAllocationId := some id, generation := 1 }
    operations := s.updateOperation claim.operationId fun row =>
      { row.receipt (placedEvidence claim id epoch) with phase := some .reserved } }

def reserveCreate (s : Lifecycle) (claim : Claim) (id : AllocationId) (host : HostId)
    (expectedEpoch : ℤ) (checks : PlacementChecks) (now : Time) : Except PlacementError Lifecycle := do
  let op ← okOr (s.op claim.operationId) .lostClaim
  ensure (op.Fenced claim now) .lostClaim
  ensure (op.kind = .create ∧ s.sandbox.activeTransitionOperationId = some claim.operationId)
    .reconcile
  match s.sandbox.currentAllocationId with
  | some current => do
    -- the existing incarnation is reported, whatever today's authority or capacity
    let _ ← okOr (s.unreleased current) .reconcile
    pure s
  | none => do
    ensure (op.status ≠ .unknown ∧ op.attemptCount = 0 ∧ s.sandbox.generation = 0 ∧
      s.sandbox.observedState = .creating ∧ s.sandbox.desiredState = .running) .reconcile
    ensure (checks.resources = true) .invalidResources
    ensure (checks.quota = true) .quota
    ensure (checks.ready = true ∧ s.hostEpoch host = expectedEpoch ∧ 0 < expectedEpoch)
      .hostUnavailable
    ensure (checks.compatible = true) .hostCompatibility
    ensure (checks.authorized = true) .unauthorized
    ensure (checks.capacity = true) .capacity
    let serial ← okOr checks.serial .capacity
    pure (s.place op claim id host expectedEpoch serial)

/-! ### Create -/

structure DispatchChecks where
  authorized : Bool
  imageAllowed : Bool
  fresh : Bool
  resources : Bool
  compatible : Bool

inductive CreateAction where
  | start (owner : Ownership) (allocationExpires : Time)
  | inspect (owner : Ownership)

/-- A prior durable intent is uncertainty even if its request was never sent. -/
def prepareCreateDispatch (s : Lifecycle) (claim : Claim) (checks : DispatchChecks) (now : Time) :
    Except DispatchError (Lifecycle × CreateAction) := do
  let ctx ← s.context claim .create now
  if 0 < ctx.op.attemptCount ∨ ctx.op.status = .unknown then
    pure
      ({ s with
          operations := s.updateOperation claim.operationId fun row =>
            { row with phase := some .reconciling } },
        .inspect ctx.owner)
  else do
    ensure (ctx.op.phase = some .reserved ∧ ctx.allocation.status = .reserved ∧
      s.sandbox.desiredState = .running) .conflict
    ensure (checks.authorized = true) .unauthorized
    ensure (checks.imageAllowed = true) .imageDenied
    ensure (checks.fresh = true) .hostUnavailable
    ensure (checks.resources = true) .invalidResources
    ensure (checks.compatible = true) .hostCompatibility
    let lease := min (now + seconds 60) (s.sandbox.expiresAt.getD (now + seconds 60))
    pure
      ({ s with
          allocation := some { ctx.allocation with leaseExpiresAt := some lease }
          operations := s.updateOperation claim.operationId fun row =>
            { row.receipt (evidence ctx.owner none .createDispatchIntent) with
              phase := some .createDispatched, attemptCount := row.attemptCount + 1 } },
        .start ctx.owner lease)

def recordCreateUnknown (s : Lifecycle) (claim : Claim) (now : Time) :
    Except DispatchError Lifecycle := do
  let _ ← s.context claim .create now
  pure
    { s with
      sandbox := s.sandbox.uncertain
      operations := s.updateOperation claim.operationId fun row =>
        row.unknown .reconciliationRequired 1 now }

def createReceipt (owner : Ownership) (observation : Observation) (phase : EvidenceKind) : LifecycleEvidence :=
  { evidence owner (some observation.simulated) phase with
    observedUnixMs := some observation.observedUnixMs
    startCount := some observation.startCount }

def Lifecycle.createReady (s : Lifecycle) (ctx : Context) (claim : Claim)
    (observation : Observation) (now : Time) : Lifecycle :=
  { s with
    allocation := some
      { ctx.allocation with
        status := .running, maintenanceNextAt := some (now + seconds 10) }
    sandbox := { s.sandbox with observedState := .running, activeTransitionOperationId := none }
    operations := s.updateOperation claim.operationId fun row =>
      row.complete .succeeded .ready (createReceipt ctx.owner observation .guestReady) now }

def Lifecycle.createReleased (s : Lifecycle) (ctx : Context) (claim : Claim)
    (observation : Observation) (now : Time) : Lifecycle :=
  let receipt := createReceipt ctx.owner observation .allocationReleased
  { s with
    allocation := some (ctx.allocation.release receipt now)
    sandbox := s.sandbox.destroy
    operations := s.updateOperation claim.operationId fun row =>
      row.complete .failed .releasedBeforeCompletion receipt now }

def recordCreateObservation (s : Lifecycle) (claim : Claim) (observation : Observation)
    (allowSimulated : Bool) (now : Time) : Except DispatchError Lifecycle := do
  ensure (observation.simulated = true → allowSimulated = true) .simulationDenied
  let ctx ← s.context claim .create now
  ensure (observation.ownership = some ctx.owner ∧
    observation.createOperationId = some ctx.owner.operationId ∧
    0 < observation.observedUnixMs ∧ ctx.op.attemptCount = 1) .badEvidence
  ensure (Fresh now observation.observedUnixMs) .badEvidence
  let state ← okOr (AllocationState.tryFrom observation.state) .badEvidence
  ensure (state = .ready ∨ state = .released) .badEvidence
  if state = .ready then do
    -- readiness must still be inside the execution lease when it is committed
    ensure (Pending ctx.allocation.leaseExpiresAt now) .badEvidence
    pure (s.createReady ctx claim observation now)
  else pure (s.createReleased ctx claim observation now)

def rejectionReceipt (claim : Claim) (reason : CreateRejection) : LifecycleEvidence :=
  { phase := .rejectedBeforeDispatch, operationId := some claim.operationId,
    claimRevision := some claim.revision, dispatchIntentAbsent := some true, code := some reason }

/-- The reservation of an undispatched create, if it has one, is released with the rejection. -/
def rejectedAllocation (s : Lifecycle) (receipt : LifecycleEvidence) (now : Time) :
    Except DispatchError (Option AllocationRow) :=
  match s.sandbox.currentAllocationId with
  | none => .ok s.allocation
  | some current => do
    let allocation ← okOr (s.unreleased current) .conflict
    ensure (allocation.status = .reserved ∧ allocation.leaseExpiresAt = none) .conflict
    pure (some (allocation.release receipt now))

/-- Safe only where durable evidence proves that no create request could have been sent. -/
def rejectUndispatchedCreate (s : Lifecycle) (claim : Claim) (reason : CreateRejection)
    (now : Time) : Except DispatchError Lifecycle := do
  let op ← okOr (s.op claim.operationId) .conflict
  ensure (op.Fenced claim now ∧ op.status = .running ∧ op.kind = .create ∧ op.attemptCount = 0)
    .conflict
  ensure (op.phase = none ∨ op.phase = some .queued ∨ op.phase = some .reserved) .conflict
  ensure (s.sandbox.activeTransitionOperationId = some claim.operationId) .conflict
  let allocation ← rejectedAllocation s (rejectionReceipt claim reason) now
  pure
    { s with
      allocation
      sandbox := s.sandbox.destroy
      operations := s.updateOperation claim.operationId fun row =>
        row.complete .failed .rejectedBeforeDispatch (rejectionReceipt claim reason) now }

/-! ### Destroy -/

inductive DestroyAdmission where
  | accepted | busy | unauthorized
  deriving DecidableEq, Repr

def Lifecycle.previous (s : Lifecycle) : Option LifecycleOperation :=
  s.sandbox.activeTransitionOperationId.bind s.op

def Lifecycle.NoOp (s : Lifecycle) : Prop :=
  s.sandbox.observedState = .destroyed ∧ s.sandbox.currentAllocationId = none

def Lifecycle.NeverAllocated (s : Lifecycle) : Prop :=
  s.sandbox.currentAllocationId = none ∧ s.sandbox.generation = 0 ∧
    ∃ op ∈ s.previous, op.attemptCount = 0

instance (s : Lifecycle) : Decidable s.NoOp := inferInstanceAs (Decidable (_ ∧ _))

instance (s : Lifecycle) : Decidable s.NeverAllocated :=
  inferInstanceAs (Decidable (_ ∧ _ ∧ ∃ op ∈ s.previous, _))

def destroyRow (row : SandboxRow) (id : OperationId) (supersedes : Option OperationId)
    (immediate : Bool) (now : Time) : LifecycleOperation :=
  { id, projectId := row.projectId, sandboxId := row.id, kind := .destroy,
    status := if immediate then .succeeded else .queued, claimRevision := 0,
    leaseExpiresAt := none, nextRetryAt := none, attemptCount := 0,
    completedAt := if immediate then some now else none,
    phase := some (if immediate then .destroyed else .admitted),
    supersedesOperationId := supersedes, attemptReceipts := [] }

/-- The unfinished create under a destroy: its claimant is revoked with the same statement. -/
def LifecycleOperation.supersede (op : LifecycleOperation) (immediate : Bool) (now : Time) :
    LifecycleOperation :=
  { op with
    claimRevision := op.claimRevision + 1, leaseExpiresAt := none, nextRetryAt := none
    phase := some (if immediate then .destroyedDuringCreate else .cleanupOwnedByDestroy)
    status := if immediate then .failed else .unknown
    completedAt := if immediate then some now else none }

def Lifecycle.supersedeActive (s : Lifecycle) (immediate : Bool) (now : Time) :
    List LifecycleOperation :=
  match s.sandbox.activeTransitionOperationId with
  | none => s.operations
  | some active => s.updateOperation active (·.supersede immediate now)

def Lifecycle.admitted (s : Lifecycle) (id : OperationId) (now : Time) : Lifecycle :=
  let immediate := decide (s.NoOp ∨ s.NeverAllocated)
  { s with
    operations := s.supersedeActive immediate now ++
      [destroyRow s.sandbox id s.sandbox.activeTransitionOperationId immediate now]
    sandbox :=
      if s.NoOp then s.sandbox
      else
        { s.sandbox with
          desiredState := .destroyed
          observedState := if immediate then .destroyed else .destroying
          activeTransitionOperationId := if immediate then none else some id } }

/-- `admit_destroy` for a request whose idempotency key is new. -/
def admitDestroy (s : Lifecycle) (id : OperationId) (authorized : Bool) (now : Time) :
    Except DispatchError (Lifecycle × DestroyAdmission) :=
  if ∃ op ∈ s.previous, op.kind ≠ .create ∨ op.status ≠ .unknown then .ok (s, .busy)
  else if authorized = false then .ok (s, .unauthorized)
  else do
    ensure (s.sandbox.currentAllocationId ≠ none ∨ s.NoOp ∨ s.NeverAllocated) .conflict
    ensure (s.op id = none) .query
    pure (s.admitted id now, .accepted)

inductive DestroyAction where
  | stop (owner : Ownership)
  | inspect (owner : Ownership)

def LifecycleOperation.dispatchStop (op : LifecycleOperation) (owner : Ownership) (stop : Bool) :
    LifecycleOperation :=
  { op with
    phase := some (if stop then .stopDispatched else .reconciling)
    attemptCount := op.attemptCount + if stop then 1 else 0
    attemptReceipts :=
      if op.attemptCount = 0 then op.attemptReceipts ++ [evidence owner none .stopDispatchIntent]
      else op.attemptReceipts }

def prepareDestroy (s : Lifecycle) (claim : Claim) (retryStop : Bool) (now : Time) :
    Except DispatchError (Lifecycle × DestroyAction) := do
  let ctx ← s.context claim .destroy now
  ensure (s.sandbox.desiredState = .destroyed) .conflict
  let stop := decide (ctx.op.attemptCount = 0) || retryStop
  ensure (¬(stop = true ∧ 100 ≤ ctx.op.attemptCount)) .conflict
  pure
    ({ s with
        allocation := some
          (if stop = true then { ctx.allocation with status := .releasing } else ctx.allocation)
        operations := s.updateOperation claim.operationId (·.dispatchStop ctx.owner stop) },
      if stop = true then .stop ctx.owner else .inspect ctx.owner)

def recordDestroyUnknown (s : Lifecycle) (claim : Claim) (now : Time) :
    Except DispatchError Lifecycle := do
  let _ ← s.context claim .destroy now
  pure
    { s with
      sandbox := s.sandbox.uncertain
      operations := s.updateOperation claim.operationId (·.unknown .releaseUnconfirmed 1 now) }

def destroyReceipt (owner : Ownership) (observation : Observation) : LifecycleEvidence :=
  { evidence owner (some observation.simulated) .allocationReleased with
    fencedAbsent := some (decide (AllocationState.tryFrom observation.state = some .fencedAbsent))
    observedUnixMs := some observation.observedUnixMs }

/-- The rows after a destroy confirmed the release: its own, and the create it superseded. -/
def Lifecycle.destroyedRows (s : Lifecycle) (op : LifecycleOperation) (receipt : LifecycleEvidence)
    (now : Time) : List LifecycleOperation :=
  let superseded :=
    match op.supersedesOperationId with
    | none => s.operations
    | some previous => s.updateOperation previous (·.destroyedDuringCreate receipt now)
  Table.update (fun row => row.id) superseded op.id (·.complete .succeeded .destroyed receipt now)

def recordDestroyObservation (s : Lifecycle) (claim : Claim) (observation : Observation)
    (allowSimulated : Bool) (now : Time) : Except DispatchError Lifecycle := do
  ensure (observation.simulated = true → allowSimulated = true) .simulationDenied
  let ctx ← s.context claim .destroy now
  ensure (observation.ownership = some ctx.owner ∧ 1 ≤ ctx.op.attemptCount ∧
    (AllocationState.tryFrom observation.state = some .released ∨
      AllocationState.tryFrom observation.state = some .fencedAbsent)) .badEvidence
  ensure (Fresh now observation.observedUnixMs) .badEvidence
  let receipt := destroyReceipt ctx.owner observation
  pure
    { s with
      allocation := some (ctx.allocation.release receipt now)
      sandbox := s.sandbox.destroy
      operations := s.destroyedRows ctx.op receipt now }

/-! ### Recovery of an allocation that an earlier epoch created -/

inductive PreviousAction where
  | rejectUndispatched
  | reconcile (request : PreviousAllocationRequest)

def reconcilePrevious (s : Lifecycle) (ctx : Context) (claim : Claim) (reportingEpoch : ℤ) :
    Except DispatchError (Lifecycle × Option PreviousAction) := do
  ensure ((ctx.op.kind = .create → ctx.op.attemptCount = 1) ∧
    (ctx.op.kind = .destroy → s.sandbox.desiredState = .destroyed)) .conflict
  pure
    ({ s with
        operations := s.updateOperation claim.operationId fun row =>
          { row with phase := some .reconcilingPreviousEpoch } },
      some (.reconcile { ownership := some ctx.owner, reportingEpoch }))

/-- The unreleased allocation of the claimed operation, on a host whose epoch it predates. -/
def Lifecycle.predated (s : Lifecycle) (claim : Claim) (host : HostId) (reportingEpoch : ℤ) :
    Option LifecycleOperation := do
  let op ← s.op claim.operationId
  let current ← s.sandbox.currentAllocationId
  let allocation ← s.unreleased current
  guard (allocation.hostId = host ∧ allocation.supervisorEpoch < reportingEpoch)
  pure op

def preparePreviousAllocation (s : Lifecycle) (claim : Claim) (host : HostId) (reportingEpoch : ℤ)
    (now : Time) : Except DispatchError (Lifecycle × Option PreviousAction) := do
  ensure (0 < reportingEpoch) .invalidData
  match s.predated claim host reportingEpoch with
  | none => pure (s, none)
  | some candidate => do
    ensure (candidate.kind = .create ∨ candidate.kind = .destroy) .conflict
    let ctx ← contextAtEpoch s claim candidate.kind (some reportingEpoch) now
    ensure (ctx.owner.hostId = host) .conflict
    -- no intent was ever recorded: the rejection still has to prove that itself
    if candidate.kind = .create ∧ ctx.op.attemptCount = 0 then pure (s, some .rejectUndispatched)
    else reconcilePrevious s ctx claim reportingEpoch

/-- The claimed row's context in a transaction on an earlier epoch's allocation. -/
def previousContext (s : Lifecycle) (claim : Claim) (request : PreviousAllocationRequest)
    (now : Time) : Except DispatchError Context := do
  let op ← okOr (s.op claim.operationId) .query
  ensure (op.kind = .create ∨ op.kind = .destroy) .conflict
  contextAtEpoch s claim op.kind (some request.reportingEpoch) now

def recordPreviousUnknown (s : Lifecycle) (claim : Claim) (request : PreviousAllocationRequest)
    (now : Time) : Except DispatchError Lifecycle := do
  let ctx ← previousContext s claim request now
  ensure (request.ownership = some ctx.owner ∧
    ctx.op.phase = some .reconcilingPreviousEpoch) .badEvidence
  pure
    { s with
      sandbox := s.sandbox.uncertain
      operations := s.updateOperation claim.operationId (·.unknown .previousReleaseUnconfirmed 2 now) }

def previousReceipt (owner : Ownership) (reportingEpoch : ℤ) (state : AllocationState)
    (release : Observation) : LifecycleEvidence :=
  { evidence owner (some release.simulated) .allocationReleased with
    reportingEpoch := some reportingEpoch
    previousEpochRecovery := some true
    fencedAbsent := some (decide (state = .fencedAbsent))
    observedUnixMs := some release.observedUnixMs }

/-- What a create's own recovery also demands of the release. -/
def CreateRecovered (ctx : Context) (state : AllocationState) (release : Observation) : Prop :=
  ctx.op.attemptCount = 1 ∧
    (state = .released → release.createOperationId = some ctx.owner.operationId) ∧
    (state = .fencedAbsent → release.createOperationId = none ∧ release.startCount = 0)

instance (ctx : Context) (state : AllocationState) (release : Observation) :
    Decidable (CreateRecovered ctx state release) :=
  inferInstanceAs (Decidable (_ ∧ _))

def Lifecycle.recovered (s : Lifecycle) (ctx : Context) (receipt : LifecycleEvidence) (now : Time) : Lifecycle :=
  { s with
    allocation := some
      { ctx.allocation.release receipt now with maintenanceLeaseUntil := none }
    sandbox := s.sandbox.destroy
    operations :=
      if ctx.op.kind = .destroy then s.destroyedRows ctx.op receipt now
      else
        s.updateOperation ctx.op.id fun row =>
          row.complete .failed .releasedBeforeCompletion receipt now }

def recordPreviousRelease (s : Lifecycle) (claim : Claim)
    (observation : PreviousAllocationObservation) (allowSimulated : Bool) (now : Time) :
    Except DispatchError Lifecycle := do
  let request ← okOr observation.request .badEvidence
  let release ← okOr observation.release .badEvidence
  ensure (release.simulated = true → allowSimulated = true) .simulationDenied
  let ctx ← previousContext s claim request now
  let state ← okOr (AllocationState.tryFrom release.state) .badEvidence
  ensure (ctx.op.phase = some .reconcilingPreviousEpoch ∧ request.ownership = some ctx.owner ∧
    release.ownership = some ctx.owner ∧ 0 < release.observedUnixMs ∧
    (state = .released ∨ state = .fencedAbsent) ∧
    (ctx.op.kind = .create → CreateRecovered ctx state release) ∧
    (ctx.op.kind = .destroy → s.sandbox.desiredState = .destroyed)) .badEvidence
  ensure (Fresh now release.observedUnixMs) .badEvidence
  pure (s.recovered ctx (previousReceipt ctx.owner request.reportingEpoch state release) now)

/-! ### Maintenance of the execution lease -/

structure AllocationClaim where
  allocationId : AllocationId
  revision : ℤ
  deriving DecidableEq, Repr

structure LeaseContext where
  allocation : AllocationRow
  owner : LeaseOwnership
  currentEpoch : ℤ

def AllocationRow.Maintained (a : AllocationRow) (claim : AllocationClaim) (now : Time) : Prop :=
  a.id = claim.allocationId ∧ a.maintenanceRevision = claim.revision ∧
    Pending a.maintenanceLeaseUntil now ∧ a.status = .running ∧ a.releasedAt = none

instance (a : AllocationRow) (claim : AllocationClaim) (now : Time) :
    Decidable (a.Maintained claim now) := inferInstanceAs (Decidable (_ ∧ _))

def leaseContext (s : Lifecycle) (claim : AllocationClaim) (now : Time) :
    Except DispatchError LeaseContext := do
  let allocation ← okOr s.allocation .conflict
  ensure (allocation.Maintained claim now) .lostClaim
  let currentEpoch := s.hostEpoch allocation.hostId
  ensure (allocation.supervisorEpoch ≤ currentEpoch ∧
    s.sandbox.generation = allocation.generation ∧
    s.sandbox.currentAllocationId = some claim.allocationId ∧
    s.sandbox.activeTransitionOperationId = none ∧ s.sandbox.desiredState = .running) .conflict
  pure
    { allocation, currentEpoch
      owner :=
        { hostId := allocation.hostId, projectId := allocation.projectId,
          sandboxId := allocation.sandboxId, allocationId := claim.allocationId,
          generation := allocation.generation, supervisorEpoch := allocation.supervisorEpoch,
          revision := claim.revision
          claimExpiresUnixMs := ms (allocation.maintenanceLeaseUntil.getD 0) } }

/-- The service's own destroy of an allocation that may no longer run. -/
def Lifecycle.cleanup (s : Lifecycle) (id : OperationId) (now : Time) : Lifecycle :=
  { s with
    operations := s.operations ++ [destroyRow s.sandbox id none false now]
    sandbox :=
      { s.sandbox with
        desiredState := .destroyed, observedState := .destroying
        activeTransitionOperationId := some id } }

def cleanup (s : Lifecycle) (id : OperationId) (now : Time) : Except DispatchError Lifecycle := do
  ensure (s.op id = none) .query
  pure (s.cleanup id now)

def claimAllocation (s : Lifecycle) (host : HostId) (epoch lease : ℤ) (now : Time) :
    Except DispatchError Lifecycle := do
  ensure (1 ≤ lease ∧ lease ≤ 300) .invalidData
  let a ← okOr s.allocation .lostClaim
  ensure (s.sandbox.currentAllocationId = some a.id ∧ a.hostId = host ∧ s.hostEpoch host = epoch ∧
    a.supervisorEpoch ≤ epoch ∧ a.status = .running ∧ a.releasedAt = none ∧
    s.sandbox.desiredState = .running ∧ s.sandbox.activeTransitionOperationId = none ∧
    Elapsed a.maintenanceLeaseUntil now ∧ Elapsed a.maintenanceNextAt now) .lostClaim
  pure
    { s with
      allocation := some
        { a with
          maintenanceRevision := a.maintenanceRevision + 1
          maintenanceLeaseUntil := some (now + seconds lease) } }

inductive LeaseAction where
  | renew (owner : LeaseOwnership) (expiresUnixMs : ℤ)
  | inspect (owner : LeaseOwnership)
  | cleanup (operation : OperationId)

/-- The sandbox's own deadline is over, or the lease was extended past it. -/
def Overdue (expiry confirmed requested : Option Time) (now : Time) : Prop :=
  ∃ e ∈ expiry, e ≤ now ∨ (∃ v ∈ confirmed, e < v) ∨ ∃ v ∈ requested, e < v

instance (expiry confirmed requested : Option Time) (now : Time) :
    Decidable (Overdue expiry confirmed requested now) :=
  inferInstanceAs (Decidable (∃ e ∈ expiry, _))

/-- A renewal is sent only where its deadline is later in whole milliseconds. -/
def renewalDeadline (confirmed : Option Time) (candidate : Time) : Option ℤ :=
  if ∃ prior ∈ confirmed, ms prior < ms candidate then some (ms candidate) else none

def prepareLease (s : Lifecycle) (claim : AllocationClaim) (operation : OperationId)
    (projectActive : Bool) (now : Time) : Except DispatchError (Lifecycle × LeaseAction) := do
  let ctx ← leaseContext s claim now
  let confirmed := ctx.allocation.leaseExpiresAt
  if ctx.owner.supervisorEpoch < ctx.currentEpoch ∨ projectActive = false ∨
      Overdue s.sandbox.expiresAt confirmed ctx.allocation.leaseRequestedUntil now then do
    let next ← cleanup s operation now
    pure
      ({ next with allocation := some { ctx.allocation with maintenanceLeaseUntil := none } },
        .cleanup operation)
  else if ctx.allocation.renewalPending = true ∨ Elapsed confirmed now then
    pure (s, .inspect ctx.owner)
  else
    let candidate := min (s.sandbox.expiresAt.getD (now + seconds 30)) (now + seconds 30)
    match renewalDeadline confirmed candidate with
    | none => pure (s, .inspect ctx.owner)
    | some expires =>
      pure
        ({ s with
            allocation := some
              { ctx.allocation with renewalPending := true, leaseRequestedUntil := some candidate } },
          .renew ctx.owner expires)

def deferAllocation (s : Lifecycle) (claim : AllocationClaim) (now : Time) :
    Except DispatchError Lifecycle := do
  let a ← okOr s.allocation .lostClaim
  ensure (a.id = claim.allocationId ∧ a.maintenanceRevision = claim.revision ∧
    Pending a.maintenanceLeaseUntil now) .lostClaim
  pure
    { s with
      allocation := some
        { a with
          maintenanceLeaseUntil := none, maintenanceNextAt := some (now + seconds 2) } }

def recordLeaseUnknown (s : Lifecycle) (claim : AllocationClaim) (now : Time) :
    Except DispatchError Lifecycle := do
  let ctx ← leaseContext s claim now
  pure
    { s with
      sandbox := s.sandbox.uncertain
      allocation := some
        { ctx.allocation with
          renewalPending := true, maintenanceLeaseUntil := none
          maintenanceNextAt := some (now + seconds 2) } }

/-- The lease confirmed as it was observed. -/
def AllocationRow.renewed (a : AllocationRow) (deadline now : Time) : AllocationRow :=
  { a with
    leaseExpiresAt := some deadline, renewalPending := false
    maintenanceNextAt := some
      (max (now + seconds 1) (min (now + seconds 10) (deadline - seconds 10))) }

def leaseReady (s : Lifecycle) (ctx : LeaseContext) (operation : OperationId)
    (observed : ℤ) (projectActive : Bool) (now : Time) : Except DispatchError Lifecycle := do
  ensure (ctx.allocation.leaseRequestedUntil.map ms = some observed ∨
    ctx.allocation.leaseExpiresAt.map ms = some observed) .badEvidence
  ensure (∀ previous ∈ ctx.allocation.leaseExpiresAt, ms previous ≤ observed) .badEvidence
  ensure (ms now < observed) .badEvidence
  if projectActive = false ∨ ∃ e ∈ s.sandbox.expiresAt, e < observed * 1000 then cleanup s operation now
  else
    pure
      { s with
        allocation := some (ctx.allocation.renewed (observed * 1000) now)
        sandbox := { s.sandbox with observedState := .running } }

def leaseObserved (s : Lifecycle) (ctx : LeaseContext) (operation : OperationId)
    (observation : LeaseObservation) (projectActive : Bool) (now : Time) :
    Except DispatchError Lifecycle :=
  match AllocationState.tryFrom observation.state with
  | some .released | some .fencedAbsent => cleanup s operation now
  | some .ready => leaseReady s ctx operation observation.allocationExpiresUnixMs projectActive now
  | _ => .error .badEvidence

/-- The lease's observation itself is not read again, so it is not kept. -/
def recordLeaseObservation (s : Lifecycle) (claim : AllocationClaim) (operation : OperationId)
    (observation : LeaseObservation) (projectActive allowSimulated : Bool) (now : Time) :
    Except DispatchError Lifecycle := do
  ensure (observation.simulated = true → allowSimulated = true) .simulationDenied
  let ctx ← leaseContext s claim now
  ensure (ctx.currentEpoch = ctx.owner.supervisorEpoch) .conflict
  ensure (observation.ownership = some ctx.owner) .badEvidence
  let next ← leaseObserved s ctx operation observation projectActive now
  ensure (Fresh now observation.observedUnixMs) .badEvidence
  pure
    { next with
      allocation := next.allocation.map fun a => { a with maintenanceLeaseUntil := none } }

/-- A failed health check supplies no readiness evidence; it never frees a reservation. -/
def markHostRuntimeUnknown (s : Lifecycle) (host : HostId) (epoch : ℤ) :
    Except DispatchError Lifecycle := do
  let a ← okOr s.allocation .lostClaim
  ensure (s.sandbox.currentAllocationId = some a.id ∧ a.hostId = host ∧ a.supervisorEpoch = epoch ∧
    a.status = .running ∧ a.releasedAt = none ∧ s.sandbox.desiredState = .running ∧
    s.sandbox.activeTransitionOperationId = none ∧ s.sandbox.observedState = .running) .lostClaim
  pure { s with sandbox := s.sandbox.uncertain }

/-- The health of a new epoch cannot vouch for what the prior incarnation ran. -/
def markPreviousEpochUnknown (s : Lifecycle) (host : HostId) (epoch : ℤ) :
    Except DispatchError Lifecycle := do
  let a ← okOr s.allocation .lostClaim
  ensure (s.sandbox.currentAllocationId = some a.id ∧ a.hostId = host ∧ a.supervisorEpoch ≠ epoch ∧
    a.releasedAt = none ∧ s.sandbox.desiredState = .running ∧
    s.sandbox.activeTransitionOperationId = none ∧ s.sandbox.observedState = .running) .lostClaim
  pure { s with sandbox := s.sandbox.uncertain }

/-! ### Retention and the host's own epoch -/

/-- Compaction erases the payload of a finished row that no sandbox still points at. -/
def compactLifecycle (s : Lifecycle) (id : OperationId) : Except DispatchError Lifecycle := do
  let op ← okOr (s.op id) .lostClaim
  ensure (op.status.Terminal ∧ op.completedAt ≠ none ∧ op.leaseExpiresAt = none ∧
    op.nextRetryAt = none ∧ s.sandbox.activeTransitionOperationId ≠ some id) .lostClaim
  pure { s with operations := s.updateOperation id fun row => { row with supersedesOperationId := none } }

/-- Every registration of a restarted host raises its epoch. -/
def registerHost (s : Lifecycle) (host : HostId) (epoch : ℤ) : Except DispatchError Lifecycle := do
  ensure (s.hostEpoch host < epoch) .conflict
  pure { s with hostEpoch := fun other => if other = host then epoch else s.hostEpoch other }

end HudsonSandbox.Store
