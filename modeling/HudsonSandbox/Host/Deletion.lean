import HudsonSandbox.Guardian.Retirement
import HudsonSandbox.Host.System

/-!
# Deleting a retired allocation

The cleanup plan is saved in the record before the first file is unlinked, and the record leaves
the journal last, after the store has recorded the deletion. A deletion ends the life of its
record: what the journal may hold of the allocation afterwards is another record.
-/

namespace HudsonSandbox.Host
open Checked AllocationRetirement GuestModel SupervisorFiles Effect Run

/-- `metadata_retirement::Saved` -/
structure Saved where
  plan : Guardian.Plan
  removed : Bool
  deriving DecidableEq

/-- `retirement::validate_retained` -/
def validateRetained (record : Record) (epoch : ℤ) : Except String Unit :=
  match record.retirement with
  | none => .ok ()
  | some request => do
    request.intent.validate.mapError fun _ => "invalid retained retirement request"
    ensure (request.intent.simulated = false ∧ 0 < request.revision ∧ 0 < request.expiresUnixMs ∧
      request.intent.permit.originalEpoch ≤ request.reportingEpoch ∧
      request.reportingEpoch ≤ epoch ∧ record.stopped = true) "invalid retained retirement request"
    scope record request

/-- `metadata_retirement` is a field of the journaled record that no other request reads: it is
kept beside the host, in memory and on disk. `deleting` are the requests that have fenced the
allocation and wait to hold its gate again. -/
structure Deletion where
  host : Host
  metadata : Option Saved
  retained : Option Saved
  deleting : List AllocationRetirement.Request
  forgotten : Bool

namespace Deletion

def new (allocation : AllocationId) (host : HostId) (launchPermitsRequired : Bool) : Deletion :=
  { host := Host.new allocation host launchPermitsRequired, metadata := none, retained := none,
    deleting := [], forgotten := false }

/-- What the journal on disk holds. -/
def record? (s : Deletion) : Option Record := s.host.disk.bind (·.record)

/-- A host that is gone forgets its requests, and one that starts reads the journal. -/
def settle (s : Deletion) (host : Host) : Deletion :=
  if host.up = true then
    if s.host.up = true then { s with host }
    else { s with host, metadata := s.retained, deleting := [] }
  else { s with host, metadata := none, deleting := [] }

/-- Save the row, or its absence, in one critical section. -/
def saveRow (s : Deletion) (disk : Disk) (record : Option Record) (metadata : Option Saved)
    (next : Deletion → Deletion) : Deletion :=
  let host : Host :=
    { s.host with
      record
      disk := some { epoch := s.host.epoch, record }
      facts := (record.map Fact.wrote).toList ++ s.host.facts }
  let durable := { s with host, metadata, retained := metadata, forgotten := record.isNone }
  if s.host.poisoned = true then s
  else
    match disk with
    | .written => next durable
    | .lost => { s with host := { s.host with record, poisoned := true }, metadata }
    | .refused => { s with host := s.host.poison }
    | .uncertain => { durable with host := host.poison }
    | .crashed true => durable.settle host.crash
    | .crashed false => s.settle s.host.crash

/-! ### Metadata -/

structure MetadataTurns where
  now : ℤ
  journal : Disk := .written
  readers : Except Status Unit := .ok ()
  /-- What opening the deletion session answers. -/
  session : Except Status Guardian.Plan
  /-- The directory of the allocation still exists. -/
  present : Bool := true
  plan : Disk := .written
  /-- The loop over `remove_next`. -/
  removed : Reply Unit := .received ()
  finished : Disk := .written

/-- A newer claim can win between the initial fence and this deletion attempt. -/
def metadataCheck (request : AllocationRetirement.Request) (record : Record) (metadata : Option Saved)
    (t : MetadataTurns) : Except Status Saved := do
  ensure (record.retirement = some request) ⟨.failedPrecondition, "retirement claim superseded"⟩
  t.readers
  deadline request.expiresUnixMs t.now
  let plan ← t.session
  ensure (∀ saved ∈ metadata, ¬(saved.removed = true ∧ t.present = true)) uncertain
  pure (metadata.getD { plan, removed := false })

def removeFiles (record : Record) (saved : Saved) (t : MetadataTurns) (s : Deletion) : Deletion :=
  match t.removed with
  | .received () => s.saveRow t.finished (some record) (some { saved with removed := true }) id
  | .failed => s
  | .crashed => s.settle s.host.crash

/-- `retire_allocation_metadata_sync`, once its fence is saved. No unlink is permitted until the
plan has been retained outside the directory. -/
def retireMetadata (request : AllocationRetirement.Request) (t : MetadataTurns) (s : Deletion) :
    Deletion :=
  if s.host.poisoned = true ∨ t.journal = .refused then { s with host := s.host.poison }
  else
    match s.host.record with
    | none => s
    | some record =>
      match metadataCheck request record s.metadata t with
      | .error _ => s
      | .ok saved =>
        if s.metadata.isSome = true then s.removeFiles record saved t
        else s.saveRow t.plan (some record) (some saved) (removeFiles record saved t)

/-! ### Forgetting -/

structure ForgetTurns where
  now : ℤ
  journal : Disk := .written
  /-- What the gate, the readers, the tickets, the launch authority or the deadline has against
  the request. -/
  refusal : Option Status := none
  /-- Whether the retained plan is carried out in full. -/
  removed : Except String Unit := .ok ()
  save : Disk := .written

def verifyForgetting (record : Record) (metadata : Option Saved) (epoch : ℤ)
    (request : ForgetRequest) (removed : Except String Unit) : Except String Unit := do
  ensure (record.retirement = some request.metadataRequest) "historical metadata claim changed"
  validateRetained record epoch
  let saved ← okOr metadata "metadata completion missing"
  ensure (saved.removed = true) "metadata removal is incomplete"
  removed

def forgetCheck (request : ForgetRequest) (t : ForgetTurns) (s : Deletion) (record : Record) :
    Except Status Unit := do
  (request.validate s.host.epoch t.now).mapError fun _ =>
    ⟨.failedPrecondition, "stale forgetting claim"⟩
  ensure (s.host.launchPermitsRequired = true ∧ request.claim.intent.permit.host = s.host.host)
    ⟨.failedPrecondition, "physical registered host required"⟩
  match t.refusal with
  | some status => .error status
  | none => (verifyForgetting record s.metadata s.host.epoch request t.removed).mapError fun _ =>
      uncertain

/-- `forget_allocation_sync`; an allocation without a record leaves the journal as it is. -/
def forget (request : ForgetRequest) (t : ForgetTurns) (s : Deletion) : Deletion :=
  if s.host.poisoned = true ∨ t.journal = .refused then { s with host := s.host.poison }
  else
    match s.host.record with
    | none => s
    | some record =>
      match forgetCheck request t s record with
      | .error _ => s
      | .ok () => s.saveRow t.save none none id

/-! ### Runs -/

inductive Event where
  | host (event : Host.Event)
  /-- The first half of a metadata request reconciles the fence. -/
  | fence (request : AllocationRetirement.Request) (t : FenceTurns)
  | delete (request : AllocationRetirement.Request) (t : MetadataTurns)
  | forget (request : ForgetRequest) (t : ForgetTurns)

/-- The fence of a metadata request; one that succeeds waits for the gate. -/
def afterFence (s : Deletion) (request : AllocationRetirement.Request) :
    EStateM.Result Failure Host PUnit → Deletion
  | .ok _ host => { s.settle host with deleting := request :: s.deleting }
  | .error _ host => s.settle host

section
variable (commands : CommandEncoding) (files : FileEncoding)

def step (s : Deletion) (event : Event) : Deletion :=
  if s.forgotten = true then s
  else
    match event with
    | .host event => s.settle (Host.step commands files s.host event)
    | .fence request t =>
      if s.host.up = true ∧ request.intent.permit.allocation = s.host.allocation then
        s.afterFence request (fenceAllocation request t s.host)
      else s
    | .delete request t =>
      if s.host.up = true ∧ request ∈ s.deleting then
        retireMetadata request t { s with deleting := s.deleting.erase request }
      else s
    | .forget request t =>
      if s.host.up = true ∧ request.claim.intent.permit.allocation = s.host.allocation then
        s.forget request t
      else s

end
end Deletion
end HudsonSandbox.Host
