import HudsonSandbox.Host.Journal

/-!
# Creating, inspecting and stopping on a host

A create saves its intent and its dispatch before the guardian is spawned; every later request
only observes. A stop is saved before anything is cleaned up, and a release is saved only after
the guardian's cleanup is confirmed.
-/

namespace HudsonSandbox.Host
open Checked LiveOutput GuestModel History Supervisor Effect AllocationAuthority

/-- What an observation reads of the guardian's receipt. -/
structure GuardianReceipt where
  startCount : ℕ
  expiresUnixMs : ℤ
  deriving DecidableEq, Repr

/-- What the guardian and the file system answer about one allocation. -/
structure GuardianTurns where
  /-- Neither a directory nor a control group of the allocation exists. -/
  absent : Bool := true
  /-- The guardian is running with a bound guest. -/
  running : Option GuardianReceipt := none
  /-- The lifecycle lock was free and the cleanup is confirmed. -/
  cleaned : Except Status GuardianReceipt
  released : Disk := .written

def stopped (disk : Disk) : HostM Record :=
  update disk fun record => .ok { record with stopped := true }

/-- A release that is already recorded is not saved again. -/
def released (disk : Disk) : HostM Record := do
  let record ← read disk
  if record.released = true then pure record
  else update disk fun record => .ok { record with stopped := true, released := true }

/-- Without a manifest there is nothing to clean, and any leftover prevents an absence proof. -/
def cleanup (record : Record) (t : GuardianTurns) : HostM (Option GuardianReceipt) :=
  match record.manifest with
  | none => do
    check (ensure (t.absent = true) uncertain)
    pure none
  | some _ => do
    let receipt ← check t.cleaned
    let _ ← released t.released
    pure (some receipt)

def observeRecord (record : Record) (t : GuardianTurns) : HostM (AllocationState × Option GuardianReceipt) := do
  check record.retirementCheck
  if record.stopped = true then do
    let receipt ← cleanup record t
    pure (if record.manifest.isSome then .released else .fencedAbsent, receipt)
  else if record.manifest.isNone then pure (.absent, none)
  else
    match t.running with
    | some receipt => pure (.ready, some receipt)
    | none => do
      -- No live readiness evidence: a free ownership lock permits fencing, never relaunch.
      let receipt ← check t.cleaned
      let _ ← released t.released
      pure (.released, some receipt)

def observation (o : Ownership) (record : Record) (state : AllocationState)
    (receipt : Option GuardianReceipt) (now : ℤ) : Observation :=
  { ownership := some o, state := state.toInt, simulated := false,
    startCount := (receipt.map (·.startCount)).getD 0,
    createOperationId := record.manifest.map (·.createOperation), observedUnixMs := now }

/-- A lease is checked as an ownership whose operation nothing reads. -/
def historyOwner (lease : LeaseOwnership) (generated : OperationId) : Ownership :=
  { hostId := lease.hostId, projectId := lease.projectId, sandboxId := lease.sandboxId,
    allocationId := lease.allocationId, operationId := generated, generation := lease.generation,
    supervisorEpoch := lease.supervisorEpoch, claimRevision := lease.revision,
    claimExpiresUnixMs := lease.claimExpiresUnixMs }

/-- Remember that the operation asked for a lifecycle fence. -/
def mark (operation : OperationId) : HostM PUnit :=
  modify fun s => { s with lifecycle := insert operation s.lifecycle }

def observeOwned (o : Ownership) (record : Record) (t : GuardianTurns) (now : ℤ) :
    HostM Observation := do
  let (state, receipt) ← observeRecord record t
  pure (observation o record state receipt now)

structure LifecycleTurns where
  fence : Moment
  stopped : Disk := .written
  guardian : GuardianTurns
  observed : ℤ

def inspectSync (o : Ownership) (stop : Bool) (t : LifecycleTurns) : HostM Observation := do
  mark o.operationId
  let record ← fence o t.fence
  if stop = true then do
    let _ ← stopped t.stopped
    observeOwned o { record with stopped := true } t.guardian t.observed
  else observeOwned o record t.guardian t.observed

/-- `refusal` is what the host's configuration, its capacity or an earlier generation has against
the manifest. -/
structure CreateTurns extends LifecycleTurns where
  refusal : Option Status := none
  admission : Disk := .written
  prepared : Bool := true
  claim : ℤ
  dispatched : Disk := .written
  spawned : Bool := true
  ready : Option GuardianReceipt := none

def CreateRequest.sameInput (original request : CreateRequest) (o : Ownership) : Prop :=
  original.ownership.map (·.operationId) = some o.operationId ∧
    original.launchPermit = request.launchPermit ∧ original.imageDigest = request.imageDigest ∧
    original.resources = request.resources ∧
    original.allocationExpiresUnixMs = request.allocationExpiresUnixMs

instance (original request : CreateRequest) (o : Ownership) :
    Decidable (CreateRequest.sameInput original request o) := inferInstanceAs (Decidable (_ ∧ _))

def manifest (o : Ownership) (request : CreateRequest) : Manifest :=
  { launchPermit := request.launchPermit, allocation := o.allocationId,
    createOperation := o.operationId, generation := o.generation }

/-- The create has been saved but will not be carried out. -/
def abandon (o : Ownership) (record : Record) (t : CreateTurns) : HostM Observation := do
  let _ ← stopped t.stopped
  observeOwned o { record with stopped := true } t.guardian t.observed

def launch (o : Ownership) (record : Record) (t : CreateTurns) : HostM Observation := do
  let _ ← update t.dispatched fun record => .ok { record with dispatched := true }
  if t.spawned = true then
    match t.ready with
    | some receipt => pure (observation o record .ready (some receipt) t.observed)
    | none => refuse uncertain
  else abandon o record t

def admitManifest (o : Ownership) (request : CreateRequest) (t : CreateTurns) : HostM Record :=
  update t.admission fun record =>
    match t.refusal with
    | some status => .error status
    | none => .ok { record with create := some request, manifest := some (manifest o request) }

def createSync (o : Ownership) (request : CreateRequest) (t : CreateTurns) : HostM Observation := do
  mark o.operationId
  let record ← fence o t.fence
  match record.create with
  | some original => do
    check (ensure (CreateRequest.sameInput original request o)
      ⟨.alreadyExists, "allocation retry changed create input"⟩)
    observeOwned o record t.guardian t.observed
  | none => do
    check (ensure (record.stopped = false) ⟨.failedPrecondition, "allocation is stop-fenced"⟩)
    let record ← admitManifest o request t
    if t.prepared = true ∧ deadline o.claimExpiresUnixMs t.claim = .ok ⟨⟩ then launch o record t
    else abandon o record t

/-! ### Leases, recovery and maintenance -/

structure LeaseTurns where
  record : Moment
  renewed : Reply Bool := .failed
  guardian : GuardianTurns
  observed : ℤ

def leased (o : Ownership) (lease : LeaseOwnership) (expires : Option ℤ) (record : Record) :
    Except Status Record := do
  ensure (sameAllocation record.owner o ∧ record.leaseRevision ≤ lease.revision)
    ⟨.failedPrecondition, "stale or mismatched lease ownership"⟩
  match expires with
  | none => pure { record with leaseRevision := lease.revision }
  | some expires => do
    ensure (∀ request ∈ record.leaseRequest, ¬(request.1 = lease.revision ∧ request.2 ≠ expires))
      ⟨.alreadyExists, "lease retry changed deadline"⟩
    pure { record with leaseRevision := lease.revision, leaseRequest := some (lease.revision, expires) }

/-- Only a live guardian is asked to renew. -/
def renewLease (record : Record) (expires : Option ℤ) (t : LeaseTurns) : HostM PUnit :=
  if expires.isSome = true ∧ record.stopped = false ∧ record.manifest.isSome = true then do
    let renewed ← call t.renewed
    check (ensure (renewed = some true) uncertain)
  else pure ⟨⟩

def leaseSync (o : Ownership) (lease : LeaseOwnership) (expires : Option ℤ) (t : LeaseTurns) :
    HostM LeaseObservation := do
  check (deadline lease.claimExpiresUnixMs t.record.now)
  let record ← update t.record.disk (leased o lease expires)
  renewLease record expires t
  let (state, receipt) ← observeRecord record t.guardian
  pure { ownership := some lease, state := state.toInt, simulated := false,
         allocationExpiresUnixMs := (receipt.map (·.expiresUnixMs)).getD 0
         observedUnixMs := t.observed }

structure PreviousTurns where
  record : Moment
  guardian : GuardianTurns
  answer : ℤ
  observed : ℤ

/-- A new epoch may verify the cleanup of what an old one owned, never revive it. -/
def previousAllocation (o : Ownership) (t : PreviousTurns) : HostM Observation := do
  check (deadline o.claimExpiresUnixMs t.record.now)
  let record ← read t.record.disk
  check (ensure (sameAllocation record.owner o ∧ record.stopped = true) uncertain)
  check record.retirementCheck
  let (state, receipt) ← observeRecord record t.guardian
  check (ensure (state = .released ∨ state = .fencedAbsent) uncertain)
  check (deadline o.claimExpiresUnixMs t.answer)
  pure (observation o record state receipt t.observed)

/-! ### Before the gate -/

def permitOwned (permit : Permit) (o : Ownership) : Prop :=
  permit.host = o.hostId ∧ permit.project = o.projectId ∧ permit.sandbox = o.sandboxId ∧
    permit.allocation = o.allocationId ∧ permit.createOperation = o.operationId ∧
    permit.generation = o.generation ∧ permit.originalEpoch = o.supervisorEpoch

instance (permit : Permit) (o : Ownership) : Decidable (permitOwned permit o) :=
  inferInstanceAs (Decidable (_ ∧ _))

/-- `authorized` is the launch authority's own answer about the permit. -/
def authorizeCreate (required : Bool) (o : Ownership) (request : CreateRequest)
    (authorized : Bool) : Except Status PUnit :=
  if required = true then do
    let permit ← okOr request.launchPermit ⟨.invalidArgument, "launch permit required"⟩
    ensure (permitOwned permit o) ⟨.failedPrecondition, "launch permit ownership mismatch"⟩
    ensure (authorized = true) uncertain
  else
    ensure (request.launchPermit = none)
      ⟨.failedPrecondition, "permit requires provisioned authority"⟩

def arriveCreate (request : CreateRequest) (authorized : Bool) (t : Arrival) : HostM Waiting := do
  let o ← owner request.ownership t.now
  let s ← get
  check (authorizeCreate s.launchPermitsRequired o request authorized)
  gate o t
  pure (.create o request)

def arriveLifecycle (ownership : Option Ownership) (stop : Bool) (t : Arrival) : HostM Waiting := do
  let o ← owner ownership t.now
  gate o t
  pure (.inspect o stop)

/-- An allocation without a record is answered as absent and never waits. -/
def arriveLease (ownership : Option LeaseOwnership) (expires : Option ℤ) (generated : OperationId)
    (t : Arrival) : HostM Waiting := do
  let lease ← check (okOr ownership ⟨.invalidArgument, "lease ownership required"⟩)
  let o ← owner (some (historyOwner lease generated)) t.now
  check (match expires with | some expires => deadline expires t.now | none => .ok ⟨⟩)
  let s ← journal t.check
  let _ ← check (okOr s.record uncertain)
  pure (.lease o lease expires)

def arrivePrevious (request : PreviousAllocationRequest) (t : Arrival) : HostM Waiting := do
  let original ← check (okOr request.ownership ⟨.invalidArgument, "original ownership required"⟩)
  let s ← get
  check (ensure (request.reportingEpoch = s.epoch ∧ 0 < original.supervisorEpoch ∧
    original.supervisorEpoch < request.reportingEpoch)
    ⟨.failedPrecondition, "invalid recovery epochs"⟩)
  let _ ← owner (some { original with supervisorEpoch := request.reportingEpoch }) t.now
  let s ← journal t.check
  let record ← check (okOr s.record ⟨.failedPrecondition, "retained ownership unavailable"⟩)
  check (ensure (sameAllocation record.owner original ∧ record.stopped = true)
    ⟨.failedPrecondition, "original owner is not fenced"⟩)
  pure (.previous original)

/-- Maintenance picks an unreleased record whose receipt does not say it is running. -/
def arriveReconcile (running : Bool) (t : Arrival) : HostM Waiting := do
  let record ← read t.check
  check (ensure (record.released = false ∧ record.manifest.isSome = true ∧
    (record.stopped = true ∨ running = false)) uncertain)
  pure (.reconcile record)

end HudsonSandbox.Host
