import HudsonSandbox.Store.Release

/-!
# The fleet

What placement reads and writes: the hosts with their capacity and last serial, the projects with
their limits, and every sandbox with its rows, its allocation and its permit. A lifecycle
transaction touches the rows of one sandbox; a placement also sums the allocations of its project
and its host under their row locks, where other transactions can only lower the sums.
-/

namespace HudsonSandbox.Store
open Checked Supervisor AllocationAuthority Run

/-! ### Sizes and limits -/

structure GuestSize where
  vcpu : ℤ
  memoryMib : ℤ
  diskMib : ℤ
  deriving DecidableEq, Repr

def GuestSize.Supported (size : GuestSize) : Prop :=
  (1 ≤ size.vcpu ∧ size.vcpu ≤ 4) ∧ (128 ≤ size.memoryMib ∧ size.memoryMib ≤ 8192) ∧
    (64 ≤ size.diskMib ∧ size.diskMib ≤ 65536)

instance (size : GuestSize) : Decidable size.Supported :=
  inferInstanceAs (Decidable ((_ ∧ _) ∧ (_ ∧ _) ∧ (_ ∧ _)))

def GuestSize.Positive (size : GuestSize) : Prop :=
  0 < size.vcpu ∧ 0 < size.memoryMib ∧ 0 < size.diskMib

instance (size : GuestSize) : Decidable size.Positive := inferInstanceAs (Decidable (_ ∧ _ ∧ _))

/-- One key of a project's limits: absent, no integer, or an integer. -/
abbrev LimitValue := Option (Option ℤ)

structure Limits where
  sandboxes : LimitValue := none
  vcpu : LimitValue := none
  memoryMib : LimitValue := none
  diskMib : LimitValue := none
  deriving DecidableEq, Repr

def limit (value : LimitValue) (default : ℤ) : Except PlacementError ℤ :=
  match value with
  | none => .ok default
  | some v => okOr (v.filter fun n => 0 ≤ n) .invalidResources

/-- What unreleased allocations hold, and what a project may hold. -/
structure Usage extends GuestSize where
  sandboxes : ℤ
  deriving DecidableEq, Repr

/-- An unreadable limit admits nothing. -/
def quotaOf (value : LimitValue) (default : ℤ) : ℤ :=
  match limit value default with
  | .ok n => n
  | .error _ => 0

def Limits.quota (limits : Limits) : Usage where
  sandboxes := quotaOf limits.sandboxes 25
  vcpu := quotaOf limits.vcpu 100
  memoryMib := quotaOf limits.memoryMib 204800
  diskMib := quotaOf limits.diskMib 1638400

def GuestSize.Within (size bound : GuestSize) : Prop :=
  size.vcpu ≤ bound.vcpu ∧ size.memoryMib ≤ bound.memoryMib ∧ size.diskMib ≤ bound.diskMib

instance (size bound : GuestSize) : Decidable (size.Within bound) :=
  inferInstanceAs (Decidable (_ ∧ _ ∧ _))

def Usage.Within (usage quota : Usage) : Prop :=
  usage.sandboxes ≤ quota.sandboxes ∧ usage.toGuestSize.Within quota.toGuestSize

instance (usage quota : Usage) : Decidable (usage.Within quota) :=
  inferInstanceAs (Decidable (_ ∧ _))

/-! ### Tables -/

structure HostRow where
  id : HostId
  supervisorEpoch : ℤ
  capacity : GuestSize
  lastAllocationSerial : ℕ
  deriving DecidableEq, Repr

structure ProjectRow where
  id : ProjectId
  limits : Limits
  deriving DecidableEq, Repr

/-- A sandbox row with the size it asked for, and the lifecycle operations on it. -/
structure Tenant where
  sandbox : SandboxRow
  size : GuestSize
  operations : List LifecycleOperation
  deriving DecidableEq

structure PlacedRow extends AllocationRow where
  size : GuestSize
  deriving DecidableEq

structure Fleet where
  hosts : List HostRow := []
  projects : List ProjectRow := []
  tenants : List Tenant := []
  allocations : List PlacedRow := []
  permits : List Permit := []
  deriving DecidableEq

namespace Fleet

def host (f : Fleet) (id : HostId) : Option HostRow := Table.find (·.id) f.hosts id

def project (f : Fleet) (id : ProjectId) : Option ProjectRow := Table.find (·.id) f.projects id

def tenant (f : Fleet) (id : SandboxId) : Option Tenant := Table.find (·.sandbox.id) f.tenants id

def allocation (f : Fleet) (id : AllocationId) : Option PlacedRow := Table.find (·.id) f.allocations id

def hostEpoch (f : Fleet) (id : HostId) : ℤ := ((f.host id).map (·.supervisorEpoch)).getD 0

/-- `COALESCE(sum(…), 0) … WHERE released_at IS NULL`, on the rows of one host or project -/
def usage (f : Fleet) (own : PlacedRow → Prop) [DecidablePred own] : Usage :=
  let held (a : PlacedRow) : Prop := own a ∧ a.releasedAt = none
  { sandboxes := Table.total held (fun _ => 1) f.allocations
    vcpu := Table.total held (·.size.vcpu) f.allocations
    memoryMib := Table.total held (·.size.memoryMib) f.allocations
    diskMib := Table.total held (·.size.diskMib) f.allocations }

def projectUsage (f : Fleet) (id : ProjectId) : Usage := f.usage fun a => a.projectId = id

def hostUsage (f : Fleet) (id : HostId) : Usage := f.usage fun a => a.hostId = id

/-- The rows that a transaction on one sandbox works with. -/
def view (f : Fleet) (t : Tenant) : Lifecycle where
  operations := t.operations
  sandbox := t.sandbox
  allocation := (Table.find (·.sandboxId) f.allocations t.sandbox.id).map (·.toAllocationRow)
  permit := Table.find (·.sandbox) f.permits t.sandbox.id
  hostEpoch := f.hostEpoch

end Fleet

/-- No statement writes an identity again. -/
def Tenant.write (t : Tenant) (next : Lifecycle) : Tenant :=
  { t with sandbox := { next.sandbox with id := t.sandbox.id }, operations := next.operations }

def PlacedRow.write (row : PlacedRow) (a : AllocationRow) : PlacedRow :=
  { row with toAllocationRow := { a with toAllocation := row.toAllocation } }

namespace Fleet

def write (f : Fleet) (t : Tenant) (next : Lifecycle) : Fleet :=
  { f with
    tenants := Table.update (·.sandbox.id) f.tenants t.sandbox.id (·.write next)
    allocations := next.allocation.elim f.allocations fun a =>
      Table.update (·.id) f.allocations a.id (·.write a) }

/-! ### Placement -/

/-- The comparisons of the project's limits with its usage, each limit read when its turn comes. -/
def underQuota (f : Fleet) (project : ProjectRow) (size : GuestSize) : Except PlacementError Unit := do
  let used := f.projectUsage project.id
  let sandboxes ← limit project.limits.sandboxes 25
  ensure (used.sandboxes < sandboxes) .quota
  let vcpu ← limit project.limits.vcpu 100
  ensure (size.vcpu ≤ vcpu - used.vcpu) .quota
  let memory ← limit project.limits.memoryMib 204800
  ensure (size.memoryMib ≤ memory - used.memoryMib) .quota
  let disk ← limit project.limits.diskMib 1638400
  ensure (size.diskMib ≤ disk - used.diskMib) .quota

def UnderCapacity (f : Fleet) (host : HostRow) (size : GuestSize) : Prop :=
  let used := f.hostUsage host.id
  size.vcpu ≤ host.capacity.vcpu - used.vcpu ∧ size.memoryMib ≤ host.capacity.memoryMib - used.memoryMib ∧
    size.diskMib ≤ host.capacity.diskMib - used.diskMib

instance (f : Fleet) (host : HostRow) (size : GuestSize) : Decidable (f.UnderCapacity host size) :=
  inferInstanceAs (Decidable (_ ∧ _ ∧ _))

end Fleet

/-- `UPDATE hosts SET last_allocation_serial = last_allocation_serial + 1 … RETURNING` -/
def HostRow.nextSerial (host : HostRow) : Option ℕ :=
  if host.lastAllocationSerial < 9223372036854775807 then some (host.lastAllocationSerial + 1) else none

/-- What placement asks besides sizes and sums: the host's status and image, the caller's standing. -/
structure HostFacts where
  ready : Bool
  compatible : Bool
  authorized : Bool

namespace Fleet

def checks (f : Fleet) (project : ProjectRow) (size : GuestSize) (host : Option HostRow)
    (facts : HostFacts) : PlacementChecks where
  resources := decide (size.Supported ∧ f.underQuota project size ≠ .error .invalidResources)
  quota := decide (f.underQuota project size = .ok ())
  ready := facts.ready && host.isSome
  compatible := facts.compatible
  authorized := facts.authorized
  capacity := decide (∃ row ∈ host, f.UnderCapacity row size)
  serial := host.bind HostRow.nextSerial

/-- The inserted allocation and permit, and the serial the host's row gave out. -/
def place (f : Fleet) (t : Tenant) (host : HostId) (next : Lifecycle) : Fleet :=
  { hosts := Table.update (·.id) f.hosts host fun row =>
      { row with lastAllocationSerial := row.lastAllocationSerial + 1 }
    projects := f.projects
    tenants := Table.update (·.sandbox.id) f.tenants t.sandbox.id (·.write next)
    allocations := f.allocations ++ (next.allocation.map fun a => { a with size := t.size }).toList
    permits := f.permits ++ next.permit.toList }

def reserveCreate (f : Fleet) (sandbox : SandboxId) (claim : Claim) (id : AllocationId) (host : HostId)
    (expectedEpoch : ℤ) (facts : HostFacts) (now : Time) : Except PlacementError Fleet := do
  let t ← okOr (f.tenant sandbox) .lostClaim
  let op ← okOr ((f.view t).op claim.operationId) .lostClaim
  ensure (op.Fenced claim now) .lostClaim
  let project ← okOr (f.project op.projectId) .query
  let next ← Store.reserveCreate (f.view t) claim id host expectedEpoch
    (f.checks project t.size (f.host host) facts) now
  if t.sandbox.currentAllocationId = none then do
    -- `allocations.id` is a primary key
    ensure (f.allocation id = none) .query
    pure (f.place t host next)
  else pure f

/-! ### The other transactions -/

/-- The lifecycle transactions that write the rows of one sandbox only. -/
def Local : LifecycleEvent → Prop
  | .reserveCreate .. | .registerHost .. => False
  | _ => True

/-- One lifecycle transaction; `operations.id` is a primary key. -/
def transact (allowSimulated : Bool) (f : Fleet) (sandbox : SandboxId) (event : LifecycleEvent) :
    Except DispatchError Fleet := do
  let t ← okOr (f.tenant sandbox) .lostClaim
  let next := lifecycleStep allowSimulated (f.view t) event
  ensure (∀ op ∈ next.operations, ∀ other ∈ f.tenants, other.sandbox.id ≠ sandbox →
    ∀ row ∈ other.operations, row.id ≠ op.id) .query
  pure (f.write t next)

def admitCreate (f : Fleet) (project : ProjectId) (sandbox : SandboxId) (operation : OperationId)
    (size : GuestSize) (expiresAt : Option Time) : Except PlacementError Fleet := do
  ensure size.Supported .invalidResources
  ensure (f.tenant sandbox = none ∧ (∀ t ∈ f.tenants, ∀ row ∈ t.operations, row.id ≠ operation) ∧
    (f.project project).isSome) .query
  let admitted := Store.admitCreate project sandbox operation expiresAt f.hostEpoch
  pure
    { f with
      tenants := f.tenants ++
        [{ sandbox := admitted.sandbox, size, operations := admitted.operations }] }

def addHost (f : Fleet) (id : HostId) (capacity : GuestSize) : Except PlacementError Fleet := do
  ensure (f.host id = none ∧ capacity.Positive) .query
  pure
    { f with
      hosts := f.hosts ++ [{ id, supervisorEpoch := 0, capacity, lastAllocationSerial := 0 }] }

def addProject (f : Fleet) (project : ProjectRow) : Except PlacementError Fleet := do
  ensure (f.project project.id = none) .query
  pure { f with projects := f.projects ++ [project] }

end Fleet

inductive FleetEvent where
  | addHost (id : HostId) (capacity : GuestSize)
  | setCapacity (id : HostId) (capacity : GuestSize)
  | registerHost (id : HostId) (epoch : ℤ)
  | addProject (project : ProjectRow)
  | setLimits (id : ProjectId) (limits : Limits)
  | admitCreate (project : ProjectId) (sandbox : SandboxId) (operation : OperationId) (size : GuestSize)
      (expiresAt : Option Time)
  | reserveCreate (sandbox : SandboxId) (claim : Claim) (id : AllocationId) (host : HostId)
      (expectedEpoch : ℤ) (facts : HostFacts) (now : Clock)
  | lifecycle (sandbox : SandboxId) (event : { event : LifecycleEvent // Fleet.Local event })

def fleetStep (allowSimulated : Bool) (f : Fleet) : FleetEvent → Fleet
  | .addHost id capacity => commit f (f.addHost id capacity)
  | .setCapacity id capacity =>
    { f with
      hosts := Table.update (·.id) f.hosts id fun row =>
        { row with capacity := if capacity.Positive then capacity else row.capacity } }
  | .registerHost id epoch =>
    { f with
      hosts := Table.update (·.id) f.hosts id fun row =>
        { row with supervisorEpoch := max row.supervisorEpoch epoch } }
  | .addProject project => commit f (f.addProject project)
  | .setLimits id limits =>
    { f with projects := Table.update (·.id) f.projects id fun row => { row with limits } }
  | .admitCreate project sandbox operation size expiresAt =>
    commit f (f.admitCreate project sandbox operation size expiresAt)
  | .reserveCreate sandbox claim id host expectedEpoch facts now =>
    commit f (f.reserveCreate sandbox claim id host expectedEpoch facts now)
  | .lifecycle sandbox event => commit f (f.transact allowSimulated sandbox event)

/-- The operator never lowers a host's capacity or a project's quota. -/
def Unlowered (f : Fleet) : FleetEvent → Prop
  | .setCapacity id capacity => ∀ row ∈ f.host id, row.capacity.Within capacity
  | .setLimits id limits => ∀ row ∈ f.project id, row.limits.quota.Within limits.quota
  | _ => True

instance (f : Fleet) (event : FleetEvent) : Decidable (Unlowered f event) := by
  unfold Unlowered
  split <;> infer_instance

/-- What the reservations of a fleet keep. -/
structure Fleet.Bounded (f : Fleet) : Prop where
  hosts : ∀ host ∈ f.hosts, (f.hostUsage host.id).toGuestSize.Within host.capacity
  projects : ∀ project ∈ f.projects, (f.projectUsage project.id).Within project.limits.quota
  single : ∀ sandbox, (f.allocations.filter fun a => a.sandboxId = sandbox ∧ a.releasedAt = none).length ≤ 1
  current : ∀ a ∈ f.allocations, a.releasedAt = none →
    ∃ t, f.tenant a.sandboxId = some t ∧ t.sandbox.currentAllocationId = some a.id
  serials : ∀ host ∈ f.hosts, ((f.permits.filter fun p => p.host = host.id).map fun p => p.serial) =
    List.range' 1 host.lastAllocationSerial
  permits : ∀ a ∈ f.allocations, ∃ p ∈ f.permits, p.allocation = a.id ∧ p.host = a.hostId

end HudsonSandbox.Store
