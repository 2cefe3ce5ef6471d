import HudsonSandbox.Library.Search
import HudsonSandbox.Protocol.AllocationAuthority
import HudsonSandbox.Protocol.LiveOutput
import Mathlib.Data.List.Sort

/-!
# Permits in the store

The rows of one host: its serial counter and registration checkpoint, and the allocations with
their creates and permits. A reservation issues the next serial; registration reads the permits in
bounded batches and records how far the host has them.
-/

namespace HudsonSandbox.Registration
open Checked AllocationAuthority LiveOutput

inductive Error where
  | corrupt (message : String)
  | query
  | capacity
  deriving DecidableEq, Repr

/-- The columns of `allocations` that a permit is compared with. -/
structure AllocationRow where
  id : AllocationId
  projectId : ProjectId
  sandboxId : SandboxId
  hostId : HostId
  generation : ℤ
  supervisorEpoch : ℤ
  deriving DecidableEq, Repr

/-- `create`: the operation's kind is `create`. -/
structure OperationRow where
  id : OperationId
  projectId : ProjectId
  sandboxId : SandboxId
  create : Bool
  deriving DecidableEq, Repr

/-- A row of `hosts`, and the rows of the other tables that belong to the host. -/
structure Tables where
  supervisorEpoch : ℤ
  lastAllocationSerial : ℕ
  launchAuthorityRequired : Bool
  registeredAllocationSerial : ℕ
  allocations : List AllocationRow
  operations : List OperationRow
  permits : List Permit

structure PermitBatch where
  issuedThrough : ℕ
  permits : List Permit
  /-- Missing or inconsistent permits block activation of the new host authority. -/
  hasUnissuedAllocations : Bool

/-- The allocation of a permit, as its row has it. -/
def AllocationRow.Carries (a : AllocationRow) (p : Permit) : Prop :=
  a.id = p.allocation ∧ a.hostId = p.host ∧ a.projectId = p.project ∧ a.sandboxId = p.sandbox ∧
    a.generation = p.generation ∧ a.supervisorEpoch = p.originalEpoch

instance (a : AllocationRow) (p : Permit) : Decidable (a.Carries p) :=
  inferInstanceAs (Decidable (_ ∧ _ ∧ _ ∧ _ ∧ _ ∧ _))

def OperationRow.Creates (o : OperationRow) (p : Permit) : Prop :=
  o.id = p.createOperation ∧ o.create = true ∧ o.projectId = p.project ∧ o.sandboxId = p.sandbox

instance (o : OperationRow) (p : Permit) : Decidable (o.Creates p) :=
  inferInstanceAs (Decidable (_ ∧ _ ∧ _ ∧ _))

namespace Tables

/-- The joins of a permit with its allocation and its create, all columns equal. -/
def Joined (t : Tables) (p : Permit) : Prop :=
  (∃ a ∈ t.allocations, a.Carries p) ∧ ∃ o ∈ t.operations, o.Creates p

instance (t : Tables) (p : Permit) : Decidable (t.Joined p) :=
  inferInstanceAs (Decidable ((∃ _ ∈ _, _) ∧ ∃ _ ∈ _, _))

/-- The loop over the rows: each is valid and one past the one before. -/
def checkRows (t : Tables) : ℕ → List Permit → Except Error Unit
  | _, [] => .ok ()
  | expected, p :: rest => do
    ensure (t.Joined p ∧ p.serial = expected) (.corrupt "allocation permit mismatch")
    checkRows t (expected + 1) rest

/-- An allocation of the host that no permit was issued for. -/
def Unissued (t : Tables) (host : HostId) (a : AllocationRow) : Prop :=
  a.hostId = host ∧ ¬∃ p ∈ t.permits, a.Carries p ∧ ∃ o ∈ t.operations, o.Creates p

instance (t : Tables) (host : HostId) (a : AllocationRow) : Decidable (t.Unissued host a) :=
  inferInstanceAs (Decidable (_ ∧ ¬∃ _ ∈ _, _))

def allocationPermitsAfter (t : Tables) (host : HostId) (after : ℕ) : Except Error PermitBatch := do
  ensure (after ≤ MAX_SERIAL) (.corrupt "allocation serial out of range")
  ensure (after ≤ t.lastAllocationSerial) (.corrupt "allocation frontier mismatch")
  let later := t.permits.filter fun p => p.host = host ∧ after < p.serial
  let rows := (later.mergeSort fun p q => p.serial ≤ q.serial).take MAX_BATCH
  ensure (rows.length = min (t.lastAllocationSerial - after) MAX_BATCH)
    (.corrupt "allocation registration gap")
  checkRows t (after + 1) rows
  pure
    { issuedThrough := t.lastAllocationSerial
      permits := rows
      hasUnissuedAllocations := decide (∃ a ∈ t.allocations, t.Unissued host a) }

/-- A downgrade or rollback never lowers the checkpoint. -/
def recordAllocationRegistration (t : Tables) (epoch : ℤ) (required : Bool) (through : ℕ) :
    Except Error Tables := do
  ensure (¬(epoch ≤ 0 ∨ MAX_SERIAL < through ∨ (required = false ∧ through ≠ 0)))
    (.corrupt "invalid registration checkpoint")
  ensure (t.supervisorEpoch = epoch ∧ (t.launchAuthorityRequired = false ∨ required = true) ∧
    t.registeredAllocationSerial ≤ through ∧ through ≤ t.lastAllocationSerial)
    (.corrupt "registration rollback, downgrade or stale host")
  pure { t with launchAuthorityRequired := required, registeredAllocationSerial := through }

/-- The immutable permit of exactly this owner. -/
def allocationLaunchPermit (t : Tables) (owner : Ownership) : Option Permit :=
  (t.permits.find? fun p => p.host = owner.hostId ∧ p.project = owner.projectId ∧
    p.sandbox = owner.sandboxId ∧ p.allocation = owner.allocationId ∧
    p.createOperation = owner.operationId ∧ p.generation = owner.generation ∧
    p.originalEpoch = owner.supervisorEpoch ∧ t.Joined p).map fun p =>
  { host := owner.hostId, project := owner.projectId, sandbox := owner.sandboxId
    allocation := owner.allocationId, createOperation := owner.operationId
    generation := owner.generation, originalEpoch := owner.supervisorEpoch, serial := p.serial }

/-! ### Issuance -/

/-- A create of the host's tenants; `operations.id` is a primary key. -/
def addOperation (t : Tables) (row : OperationRow) : Except Error Tables := do
  ensure (∀ o ∈ t.operations, o.id ≠ row.id) .query
  pure { t with operations := t.operations ++ [row] }

/-- The inserts of a reservation: the allocation, the next serial and the permit commit together.
The keys are those of the two tables. -/
def reserve (t : Tables) (host : HostId) (id : AllocationId) (operation : OperationId) :
    Except Error Tables := do
  let op ← okOr (t.operations.find? fun o => o.id = operation ∧ o.create = true) .query
  ensure (0 < t.supervisorEpoch) .query
  ensure (∀ a ∈ t.allocations, a.id ≠ id) .query
  ensure (t.lastAllocationSerial < 9223372036854775807) .capacity
  ensure (∀ p ∈ t.permits, p.allocation ≠ id ∧ p.createOperation ≠ operation ∧
    (p.sandbox, p.generation) ≠ (op.sandboxId, 1)) .query
  pure
    { t with
      lastAllocationSerial := t.lastAllocationSerial + 1
      allocations := t.allocations ++
        [{ id, projectId := op.projectId, sandboxId := op.sandboxId, hostId := host
           generation := 1, supervisorEpoch := t.supervisorEpoch }]
      permits := t.permits ++
        [{ host, project := op.projectId, sandbox := op.sandboxId, allocation := id
           createOperation := operation, generation := 1, originalEpoch := t.supervisorEpoch
           serial := t.lastAllocationSerial + 1 }] }

/-- The operator's epoch for the host only rises. -/
def registerHost (t : Tables) (epoch : ℤ) : Tables :=
  { t with supervisorEpoch := max t.supervisorEpoch epoch }

end Tables
end HudsonSandbox.Registration
