import HudsonSandbox.Host.Archive
import HudsonSandbox.Host.Commands
import HudsonSandbox.Host.Fence
import HudsonSandbox.Host.Files
import HudsonSandbox.Host.Retirement
import HudsonSandbox.Library.Run

/-!
# Runs of a host

Requests arrive, wait for the allocation's gate and are served in any order; the host may crash
and be started again at any point, and another allocation may poison the journal. Everything the
environment decides stands in the event.
-/

namespace HudsonSandbox.Host
open Checked LiveOutput GuestModel History SupervisorFiles Supervisor Output Effect Run

inductive Request where
  | execute (request : CommandRequest)
  | inspectCommand (request : CommandInspection) (cancel : Bool)
  | file (request : FileRequest) (action : FileAction)
  | create (request : CreateRequest) (authorized : Bool)
  | inspect (ownership : Option Ownership) (stop : Bool)
  | retireHistory (request : HistoryRequest) (generated : OperationId)
  | retireReleasedHistory (request : ReleasedHistoryRequest) (generated : OperationId)
  | output (request : OutputRequest) (plans : Option OutputPlans) (storage : Bool)
  | lease (ownership : Option LeaseOwnership) (expires : Option ℤ) (generated : OperationId)
  | previous (request : PreviousAllocationRequest)
  | reconcile (running : Bool)
  | fenceAllocation (request : AllocationRetirement.Request)

/-- The allocation whose record the request asks for; maintenance picks any. -/
def Request.allocation (any : AllocationId) : Request → Option AllocationId
  | .execute request => request.ownership.map (·.allocationId)
  | .inspectCommand request _ => request.ownership.map (·.allocationId)
  | .file request _ => request.ownership.map (·.allocationId)
  | .create request _ => request.ownership.map (·.allocationId)
  | .inspect ownership _ => ownership.map (·.allocationId)
  | .retireHistory request _ => request.ownership.map (·.allocationId)
  | .retireReleasedHistory request _ => request.ownership.map (·.allocationId)
  | .output request _ _ => request.ticket.map (·.owner.allocationId)
  | .lease ownership _ _ => ownership.map (·.allocationId)
  | .previous request => request.ownership.map (·.allocationId)
  | .reconcile _ => some any
  | .fenceAllocation request => some request.intent.permit.allocation

/-- What a waiting request will meet once it holds the gate. -/
abbrev Waiting.Turns : Waiting → Type
  | .execute .. | .inspectOrCancel .. => CommandTurns
  | .file .. => FileTurns
  | .create .. => CreateTurns
  | .inspect .. => LifecycleTurns
  | .retireHistory .. => HistoryTurns
  | .retireReleasedHistory .. => ReleasedTurns
  | .prepareOutput .. | .finishOutput .. => OutputTurns
  | .lease .. => LeaseTurns
  | .previous .. => PreviousTurns
  | .reconcile .. => GuardianTurns
  | .fenceAllocation .. => FenceTurns

inductive Event where
  | arrive (request : Request) (t : Arrival)
  | serve (waiting : Waiting) (t : waiting.Turns)
  /-- Another allocation's save has failed. -/
  | poison
  | crash
  /-- `accepted` is what the remaining checks of a retained journal say. -/
  | start (epoch : ℤ) (accepted : Bool) (disk : Disk)

/-- `journal::open`: an old epoch's record comes back stopped. -/
def opened (s : Host) (epoch : ℤ) (accepted : Bool) : Except String (Option Record) := do
  ensure (0 < epoch ∧ accepted = true) "invalid real host configuration"
  match s.disk with
  | none => pure none
  | some journal => do
    ensure (journal.epoch < epoch) "host identity mismatch or epoch not advanced"
    ensure (∀ record ∈ journal.record, record.owner.supervisorEpoch < epoch)
      "invalid retained allocation ownership"
    pure (journal.record.map fun record => { record with stopped := true })

/-- The journal of a new epoch is on disk, and no host serves it yet. -/
def reopen (s : Host) (epoch : ℤ) (record : Option Record) : Host :=
  { s with
    disk := some { epoch, record }
    facts := (record.map Fact.wrote).toList ++ s.facts }

def start (s : Host) (epoch : ℤ) (accepted : Bool) (disk : Disk) : Host :=
  match opened s epoch accepted with
  | .error _ => s
  | .ok record =>
    match disk with
    | .written =>
      { s.reopen epoch record with
        up := true, epoch, poisoned := false, record, waiting := [] }
    | .uncertain | .crashed true => s.reopen epoch record
    | .lost | .refused | .crashed false => s

section
variable (commands : CommandEncoding) (files : FileEncoding)

def arrive (request : Request) (t : Arrival) : HostM Waiting :=
  match request with
  | .execute request => arriveExecute commands request t
  | .inspectCommand request cancel => arriveInspect request cancel t
  | .file request action => arriveFile files request action t
  | .create request authorized => arriveCreate request authorized t
  | .inspect ownership stop => arriveLifecycle ownership stop t
  | .retireHistory request generated => arriveHistory request generated t
  | .retireReleasedHistory request generated => arriveReleasedHistory request generated t
  | .output request plans storage => arriveOutput request plans storage t
  | .lease ownership expires generated => arriveLease ownership expires generated t
  | .previous request => arrivePrevious request t
  | .reconcile running => arriveReconcile running t
  | .fenceAllocation request => pure (.fenceAllocation request)

/-- Serve a request under the gate; the value is what its answer adds to the history. -/
def serve : (waiting : Waiting) → waiting.Turns → HostM (Option Fact)
  | .execute o command digest, t => do
    pure (some (.answered (← executeCommand commands o command digest t)))
  | .inspectOrCancel o digest cancel, t => do
    pure (some (.answered (← inspectOrCancel o digest cancel t)))
  | .file o upload digest action, t => do
    let _ ← fileSync files o upload digest action t
    pure none
  | .create o request, t => do
    let _ ← createSync o request t
    pure none
  | .inspect o stop, t => do
    let _ ← inspectSync o stop t
    pure none
  | .retireHistory o request lease barrier, t => do
    pure (some (.retired (← retireHistory files o request lease barrier t)))
  | .retireReleasedHistory o request lease domain through, t => do
    pure (some (.reclaimed (← retireReleasedHistory files o request lease domain through t)))
  | .prepareOutput request, t => do
    let _ ← outputSetup request t
    pure none
  | .finishOutput request plans, t => do
    let _ ← outputFinish request plans t
    pure none
  | .lease o lease expires, t => do
    let _ ← leaseSync o lease expires t
    pure none
  | .previous o, t => do
    let _ ← previousAllocation o t
    pure none
  | .reconcile record, t => do
    let _ ← observeRecord record t
    pure none
  | .fenceAllocation request, t => do
    fenceAllocation request t
    pure none

/-- What serving the request answers, and the host it leaves. -/
def served (s : Host) (waiting : Waiting) (t : waiting.Turns) :
    EStateM.Result Failure Host (Option Fact) :=
  serve commands files waiting t { s with waiting := s.waiting.erase waiting }

def afterArrival : EStateM.Result Failure Host Waiting → Host
  | .ok waiting next => { next with waiting := waiting :: next.waiting }
  | .error _ next => next

def afterServe : EStateM.Result Failure Host (Option Fact) → Host
  | .ok answer next => { next with facts := answer.toList ++ next.facts }
  | .error _ next => next

def step (s : Host) : Event → Host
  | .arrive request t =>
    if s.up = true ∧ request.allocation s.allocation = some s.allocation then
      afterArrival (arrive commands files request t s)
    else s
  | .serve waiting t =>
    if s.up = true ∧ waiting ∈ s.waiting then afterServe (s.served commands files waiting t) else s
  | .poison => if s.up = true then s.poison else s
  | .crash => s.crash
  | .start epoch accepted disk => if s.up = true then s else s.start epoch accepted disk

end

end HudsonSandbox.Host
