import HudsonSandbox.Protocol.AllocationRetirement
import HudsonSandbox.Protocol.Command
import HudsonSandbox.Protocol.History
import HudsonSandbox.Protocol.Supervisor
import HudsonSandbox.Protocol.SupervisorFiles

/-!
# Requests to a host

The messages a controller sends to a host about one allocation, and the host's answers. A field
that a reader parses before anything else stands for the parsed value, and is `none` where the
text does not parse.
-/

namespace HudsonSandbox.Supervisor
open LiveOutput GuestModel History Files AllocationAuthority

structure Resources where
  vcpu : ℕ
  memoryMib : ℕ
  diskMib : ℕ
  deriving DecidableEq, Repr

/-- An empty `launch_permit_json` is `none`. -/
structure CreateRequest where
  ownership : Option Ownership
  launchPermit : Option Permit
  imageDigest : String
  resources : Option Resources
  allocationExpiresUnixMs : ℤ
  deriving DecidableEq

structure CommandRequest where
  ownership : Option Ownership
  command : Option Execute
  deriving DecidableEq

structure CommandInspection where
  ownership : Option Ownership
  commandDigest : Option Digest
  deriving DecidableEq

structure CommandObservation where
  ownership : Ownership
  simulated : Bool
  observedUnixMs : ℤ
  commandDigest : Digest
  receipt : Option Receipt
  /-- The operation was never dispatched and cannot start later. -/
  notStarted : Bool
  deriving DecidableEq

structure FileRequest where
  ownership : Option Ownership
  upload : Option Upload
  deriving DecidableEq

structure FileObservation where
  ownership : Ownership
  simulated : Bool
  observedUnixMs : ℤ
  uploadDigest : Digest
  context : Option Context
  state : ℕ
  notStarted : Bool
  stored : Option ℕ
  deriving DecidableEq

/-- This per-domain claim does not reuse customer operation revisions. -/
structure HistoryRequest where
  ownership : Option LeaseOwnership
  barrier : Option Barrier
  deriving DecidableEq

structure HistoryObservation where
  request : HistoryRequest
  completed : Barrier
  simulated : Bool
  observedUnixMs : ℤ
  deriving DecidableEq

structure LeaseInspection where
  ownership : Option LeaseOwnership
  deriving DecidableEq

/-- The guest that an allocation's host found bound to it. -/
structure HistoryBindingObservation where
  request : Option LeaseInspection
  context : Option Context
  simulated : Bool
  observedUnixMs : ℤ
  deriving DecidableEq

/-- The owner is the original one; `reportingEpoch` identifies the serving host. -/
structure ReleasedHistoryRequest where
  ownership : Option LeaseOwnership
  reportingEpoch : ℤ
  domain : Option Domain
  through : Option OperationId
  deriving DecidableEq

structure ReleasedHistoryObservation where
  request : ReleasedHistoryRequest
  completedThrough : OperationId
  releaseState : AllocationState
  simulated : Bool
  observedUnixMs : ℤ
  deriving DecidableEq

end HudsonSandbox.Supervisor

namespace HudsonSandbox.Command.CommandRecord
open LiveOutput Supervisor

def observation (self : CommandRecord) (owner : Ownership) (simulated : Bool) (now : ℤ) :
    CommandObservation :=
  { ownership := owner, simulated, observedUnixMs := now, commandDigest := self.digest,
    receipt := self.receipt, notStarted := self.notStarted }

end HudsonSandbox.Command.CommandRecord

namespace HudsonSandbox.SupervisorFiles.FileRecord
open LiveOutput Supervisor

def observation (self : FileRecord) (owner : Ownership) (simulated : Bool) (now : ℤ)
    (stored : Option ℕ) : FileObservation :=
  { ownership := owner, simulated, observedUnixMs := now, uploadDigest := self.digest,
    context := self.context, state := self.state, notStarted := self.notStarted, stored }

end HudsonSandbox.SupervisorFiles.FileRecord
