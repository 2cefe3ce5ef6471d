import HudsonSandbox.Host.Lifecycle

/-!
# Retiring history on a host

The floor of a domain is saved before the guest is asked to delete anything, and the records it
covers are dropped only after the guest has acknowledged it. A destroyed allocation's history is
dropped with the floor in one save, once its release has been observed again.
-/

namespace HudsonSandbox.Host
open Checked LiveOutput GuestModel History SupervisorFiles Supervisor Effect

structure HistoryTurns where
  record : Moment
  boot : Option String := none
  workerFree : Bool := true
  headroom : Bool := true
  floor : Disk := .written
  /-- The clock before the guest is asked, and before its answer is used. -/
  ask : ℤ
  acknowledged : Reply Unit := .failed
  settle : ℤ
  complete : Disk := .written
  answer : ℤ
  observed : ℤ

section
variable (enc : FileEncoding)

/-- A completed floor needs no guest; any other needs the original live boot. -/
def historyClient (record : Record) (retirement : Retirement) (boot : Option String) :
    Except Status (Option Context) :=
  if retirement.completed = true then .ok none
  else do
    ensure (record.stopped = false ∧ record.released = false)
      ⟨.failedPrecondition, "retirement requires original live guest"⟩
    let manifest ← okOr record.manifest uncertain
    let client ← okOr (manifest.guestClient boot) uncertain
    (retirement.barrier.validate client retirement.barrier.domain).mapError fun _ =>
      ⟨.failedPrecondition, "retirement guest identity changed"⟩
    pure (some client)

def saveFloor (retirement : Retirement) (t : HistoryTurns) : HostM Record :=
  update t.floor fun record => do
    ensure (t.headroom = true) ⟨.resourceExhausted, "host journal lacks retirement headroom"⟩
    pure (record.setSlot retirement.barrier.domain (some retirement))

/-- The guest deletes its own history first; a lost answer leaves the floor and the records. -/
def reclaimGuest (lease : LeaseOwnership) (retirement : Retirement) (t : HistoryTurns) :
    HostM PUnit := do
  check (deadline lease.claimExpiresUnixMs t.ask)
  match ← call t.acknowledged with
  | none => refuse uncertain
  | some () => do
    check (deadline lease.claimExpiresUnixMs t.settle)
    let _ ← update t.complete fun record =>
      (Host.complete enc record retirement).mapError fun _ => uncertain

def retireHistory (validated : Ownership) (request : HistoryRequest) (lease : LeaseOwnership)
    (barrier : Barrier) (t : HistoryTurns) : HostM HistoryObservation := do
  check (deadline lease.claimExpiresUnixMs t.record.now)
  let record ← read t.record.disk
  check (ensure (sameAllocation record.owner validated)
    ⟨.failedPrecondition, "retirement allocation identity changed"⟩)
  let retirement ← check ((prepare enc record barrier lease.revision).mapError fun _ =>
    ⟨.failedPrecondition, "retirement unresolved or claim changed"⟩)
  let client ← check (historyClient record retirement t.boot)
  check (ensure (retirement.barrier.domain = .commands ∨ retirement.completed = true ∨
    t.workerFree = true) ⟨.resourceExhausted, "allocation file worker busy"⟩)
  let _ ← saveFloor retirement t
  if client.isSome = true then reclaimGuest enc lease retirement t else pure ⟨⟩
  check (deadline lease.claimExpiresUnixMs t.answer)
  pure { request, completed := retirement.barrier, simulated := false, observedUnixMs := t.observed }

structure ReleasedTurns where
  record : Moment
  guardian : GuardianTurns
  observe : ℤ
  /-- What the guardian's receipt says of the guest's boot. -/
  boot : Except String (Option String)
  headroom : Bool := true
  save : Moment
  observed : ℤ

def reclaimed (request : ReleasedHistoryRequest) (lease : LeaseOwnership) (domain : Domain)
    (through : OperationId) (t : ReleasedTurns) (record : Record) :
    Except Status (Record × OperationId) := do
  let next ← (reclaim enc record t.boot domain through lease.revision
    request.reportingEpoch).mapError fun _ =>
      ⟨.failedPrecondition, "unresolved history or changed claim"⟩
  ensure (t.headroom = true) ⟨.resourceExhausted, "host journal lacks retirement headroom"⟩
  deadline lease.claimExpiresUnixMs t.save.now
  pure next

/-- Even a retry observes the original fence again: a retained boolean is not enough. -/
def retireReleasedHistory (validated : Ownership) (request : ReleasedHistoryRequest)
    (lease : LeaseOwnership) (domain : Domain) (through : OperationId) (t : ReleasedTurns) :
    HostM ReleasedHistoryObservation := do
  check (deadline lease.claimExpiresUnixMs t.record.now)
  let record ← read t.record.disk
  check (ensure (sameAllocation record.owner validated ∧ record.stopped = true)
    ⟨.failedPrecondition, "original owner is not fenced"⟩)
  let (state, _) ← observeRecord record t.guardian
  check (ensure (state = .released ∨ state = .fencedAbsent) uncertain)
  check (deadline lease.claimExpiresUnixMs t.observe)
  let completed ← edit t.save.disk (reclaimed enc request lease domain through t)
  pure { request, completedThrough := completed, releaseState := state, simulated := false,
         observedUnixMs := t.observed }

end

/-! ### Before the gate -/

def arriveHistory (request : HistoryRequest) (generated : OperationId) (t : Arrival) :
    HostM Waiting := do
  let lease ← check (okOr request.ownership ⟨.invalidArgument, "retirement ownership required"⟩)
  let validated ← owner (some (historyOwner lease generated)) t.now
  let barrier ← check (okOr request.barrier ⟨.invalidArgument, "invalid history barrier"⟩)
  let s ← journal t.check
  let _ ← check (okOr s.record ⟨.notFound, "allocation history missing"⟩)
  pure (.retireHistory validated request lease barrier)

/-- The original owner is checked under the epoch that reports, then compared under its own. -/
def arriveReleasedHistory (request : ReleasedHistoryRequest) (generated : OperationId)
    (t : Arrival) : HostM Waiting := do
  let lease ← check (okOr request.ownership ⟨.invalidArgument, "original ownership required"⟩)
  let s ← get
  check (ensure (request.reportingEpoch = s.epoch ∧ 0 < lease.supervisorEpoch ∧
    lease.supervisorEpoch ≤ request.reportingEpoch)
    ⟨.failedPrecondition, "invalid retirement epochs"⟩)
  let validated ← owner
    (some { historyOwner lease generated with supervisorEpoch := request.reportingEpoch }) t.now
  let domain ← check (okOr request.domain ⟨.invalidArgument, "invalid retirement domain"⟩)
  let through ← check (okOr request.through ⟨.invalidArgument, "invalid retirement prefix"⟩)
  check ((validId through).mapError fun _ => ⟨.invalidArgument, "invalid retirement prefix"⟩)
  let s ← journal t.check
  let _ ← check (okOr s.record ⟨.failedPrecondition, "retained ownership required"⟩)
  pure (.retireReleasedHistory { validated with supervisorEpoch := lease.supervisorEpoch } request
    lease domain through)

end HudsonSandbox.Host
