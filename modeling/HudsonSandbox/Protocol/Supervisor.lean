import HudsonSandbox.Protocol.LiveOutput

/-!
# Supervisor messages

What a host answers about an allocation: its lifecycle state, its execution lease, and the
release of an allocation that an earlier epoch of the host created.
-/

namespace HudsonSandbox.Supervisor
open LiveOutput

inductive AllocationState where
  | unspecified
  /-- Absence is not permission to replay an uncertain command. -/
  | absent
  | ready
  /-- The VM stopped and all capacity was released, not merely a requested stop. -/
  | released
  /-- This epoch confirmed absence and fenced every later start of the allocation. -/
  | fencedAbsent
  deriving DecidableEq, Repr

def AllocationState.tryFrom : ℤ → Option AllocationState
  | 0 => some .unspecified
  | 1 => some .absent
  | 2 => some .ready
  | 3 => some .released
  | 4 => some .fencedAbsent
  | _ => none

def AllocationState.toInt : AllocationState → ℤ
  | .unspecified => 0
  | .absent => 1
  | .ready => 2
  | .released => 3
  | .fencedAbsent => 4

@[simp] theorem AllocationState.tryFrom_toInt (state : AllocationState) :
    tryFrom state.toInt = some state := by
  cases state <;> rfl

/-- An empty `create_operation_id` is `none`. -/
structure Observation where
  ownership : Option Ownership
  state : ℤ
  simulated : Bool
  startCount : ℕ
  createOperationId : Option OperationId
  observedUnixMs : ℤ
  deriving DecidableEq

structure PreviousAllocationRequest where
  ownership : Option Ownership
  reportingEpoch : ℤ
  deriving DecidableEq

structure PreviousAllocationObservation where
  request : Option PreviousAllocationRequest
  release : Option Observation
  deriving DecidableEq

/-- Who maintains an allocation's execution lease, independently of any operation. -/
structure LeaseOwnership where
  hostId : HostId
  projectId : ProjectId
  sandboxId : SandboxId
  allocationId : AllocationId
  generation : ℤ
  supervisorEpoch : ℤ
  revision : ℤ
  claimExpiresUnixMs : ℤ
  deriving DecidableEq

structure LeaseObservation where
  ownership : Option LeaseOwnership
  state : ℤ
  simulated : Bool
  allocationExpiresUnixMs : ℤ
  observedUnixMs : ℤ
  deriving DecidableEq

end HudsonSandbox.Supervisor
