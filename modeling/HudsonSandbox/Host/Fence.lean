import HudsonSandbox.Host.Journal

/-!
# Fencing an allocation for retirement

The exact scope is saved before the launch authority is fenced. From then on the record answers
nothing but its own retirement.
-/

namespace HudsonSandbox.Host
open Checked LiveOutput History Supervisor AllocationRetirement Effect

/-- `history::closure`: the prefix that is closed, unless one is still pending. -/
def closure (record : Record) (domain : Domain) : Except String (Option OperationId) := do
  let live := record.slot domain
  let completed := (live.filter (·.completed)).map (·.barrier.through)
  let released := (record.releasedSlot domain).map (·.through)
  let closed := (completed.toList ++ released.toList).max?
  ensure (∀ h ∈ live, ∃ c ∈ closed, h.barrier.through ≤ c) "history closure remains pending"
  pure closed

def DomainClosure.expected : DomainClosure → Option OperationId
  | .empty => none
  | .retired through => some through

def scopeDomain (record : Record) (domain : Domain) (expected : DomainClosure) :
    Except String Unit := do
  let actual ← closure record domain
  ensure (actual = DomainClosure.expected expected) "retirement domain scope changed"

def scope (record : Record) (request : AllocationRetirement.Request) : Except String Unit := do
  let p := request.intent.permit
  ensure (record.owner.hostId = p.host ∧ record.owner.projectId = p.project ∧
    record.owner.sandboxId = p.sandbox ∧ record.owner.allocationId = p.allocation ∧
    record.owner.generation = p.generation ∧ record.owner.supervisorEpoch = p.originalEpoch)
    "retirement owner changed"
  ensure (∀ manifest ∈ record.manifest, manifest.launchPermit = some p ∧
    manifest.createOperation = p.createOperation) "retirement create owner changed"
  ensure (record.stopped = true ∨
    (record.create = none ∧ record.manifest = none ∧ record.dispatched = false))
    "allocation is not stopped"
  ensure (record.commands.entries = [] ∧ record.files.entries = [] ∧ record.archives.entries = [])
    "retirement consumers remain"
  scopeDomain record .commands request.intent.commands
  scopeDomain record .files request.intent.files

/-- What an allocation without a record is frozen as. -/
def Record.empty (request : AllocationRetirement.Request) : Record :=
  let p := request.intent.permit
  { Record.new
      { hostId := p.host, projectId := p.project, sandboxId := p.sandbox,
        allocationId := p.allocation, operationId := p.createOperation,
        generation := p.generation, supervisorEpoch := p.originalEpoch,
        claimRevision := request.revision, claimExpiresUnixMs := request.expiresUnixMs } with
    stopped := true }

structure FenceTurns where
  now : ℤ
  validated : ℤ
  /-- What the launch authority, the host's capacity or the gate has against the request. -/
  refusal : Option Status := none
  save : Disk := .written
  /-- Whether the authority is fenced, and no reader or capture ticket is left. -/
  authority : Except Status Unit := .ok ()
  readers : Except Status Unit := .ok ()
  answer : ℤ

/-- A later claim replaces an earlier one of the same intent. -/
def supersedes (request : AllocationRetirement.Request)
    (old : Option AllocationRetirement.Request) (epoch now : ℤ) : Except Status Unit :=
  match old with
  | none => .ok ()
  | some old => do
    (request.validate old.intent epoch old.revision now).mapError fun _ =>
      ⟨.failedPrecondition, "retirement scope or claim changed"⟩
    ensure (request.revision ≠ old.revision ∨ request = old)
      ⟨.failedPrecondition, "retirement claim changed without revision"⟩

def frozen (request : AllocationRetirement.Request) (epoch now : ℤ) (record : Record) :
    Except Status Record := do
  (scope record request).mapError fun _ =>
    ⟨.failedPrecondition, "retirement scope is not closed"⟩
  supersedes request record.retirement epoch now
  pure { record with retirement := some request, stopped := true }

def fenceAllocation (request : AllocationRetirement.Request) (t : FenceTurns) : HostM PUnit := do
  let s ← get
  check (ensure (s.launchPermitsRequired = true ∧ request.intent.simulated = false ∧
    request.intent.permit.host = s.host)
    ⟨.failedPrecondition, "registered physical retirement owner required"⟩)
  check (deadline request.expiresUnixMs t.now)
  check ((request.validate request.intent s.epoch 1 t.now).mapError fun _ =>
    ⟨.failedPrecondition, "invalid retirement claim"⟩)
  let s ← journal t.save
  check (match t.refusal with | some status => .error status | none => .ok ⟨⟩)
  let next ← check (frozen request s.epoch t.validated (s.record.getD (Record.empty request)))
  save t.save next
  -- A failed fence keeps the intent: nothing is acknowledged or inferred before it succeeds.
  check t.authority
  check t.readers
  check (deadline request.expiresUnixMs t.answer)

end HudsonSandbox.Host
