import HudsonSandbox.Launch.Reconciled
import HudsonSandbox.Registration.Tables

/-!
# Registering permits with the host

Any number of controllers read permits from the store and register them with the host. A request
that was sent may reach the host late, again or never, and so may a reply; between any two steps
of one controller the others, the store, the host and its power take theirs.
-/

namespace HudsonSandbox
namespace Registration
open AllocationAuthority LiveOutput
open Stored (Write)
open Inner (Checkpoint Texts)

/-- `AllocationAuthorityRequest`; a request without permits inspects. -/
structure Call where
  reportingEpoch : ℤ
  permits : List Permit

/-- `AllocationAuthorityObservation`, as an answer to one call. -/
structure Reply where
  call : ℕ
  reportingEpoch : ℤ
  registeredThrough : ℕ
  deriving DecidableEq, Repr

/-- Where a controller stands in `sync_allocation_authority`. -/
inductive Point where
  | inspecting (call : ℕ)
  | observed (through : ℕ)
  | accepted (through : ℕ)
  | registering (call expected issuedThrough : ℕ)
  | acknowledged (through : ℕ)
  | synced (through : ℕ)
  | failed
  deriving DecidableEq, Repr

structure Controller where
  epoch : ℤ
  point : Point
  deriving DecidableEq, Repr

end Registration

open Registration AllocationAuthority in
/-- `calls` and `replies` are everything that was ever sent. `serving` is the call whose checkpoint
the host holds under its journal mutex, and `creates` are the permits sent with a create. -/
structure Registration where
  tables : Tables
  root : Launch
  calls : List Call
  serving : Option ℕ
  replies : List Reply
  controllers : List Controller
  creates : List Permit

namespace Registration
open AllocationAuthority LiveOutput
open Stored (Write)
open Inner (Checkpoint Texts)

def resume (s : Registration) (thread : ℕ) (c : Controller) (point : Point) : Registration :=
  { s with controllers := s.controllers.set thread { c with point } }

def send (s : Registration) (call : Call) : Registration := { s with calls := s.calls ++ [call] }

/-! ### Controllers -/

/-- A host without permits keeps no checkpoint. -/
def begin (s : Registration) (epoch : ℤ) (required : Bool) : Registration :=
  if required = true then
    { s.send { reportingEpoch := epoch, permits := [] } with
      controllers := s.controllers ++ [{ epoch, point := .inspecting s.calls.length }] }
  else
    match s.tables.recordAllocationRegistration epoch false 0 with
    | .error _ => s
    | .ok tables => { s with tables, controllers := s.controllers ++ [{ epoch, point := .synced 0 }] }

/-- A reply to the call the controller waits for; a timeout or an error ends the attempt. -/
def receive (s : Registration) (thread : ℕ) (c : Controller) (reply : Option Reply) : Registration :=
  match c.point, reply with
  | .inspecting call, some reply =>
    if reply.call = call then
      s.resume thread c
        (if reply.reportingEpoch = c.epoch then .observed reply.registeredThrough else .failed)
    else s
  | .registering call expected issuedThrough, some reply =>
    if reply.call = call then
      s.resume thread c
        (if reply.registeredThrough < expected ∨ issuedThrough < reply.registeredThrough ∨
            reply.reportingEpoch ≠ c.epoch then .failed
          else .acknowledged reply.registeredThrough)
    else s
  | .inspecting _, none | .registering .., none => s.resume thread c .failed
  | _, _ => s

/-- `accept_registration` -/
def accept (s : Registration) (thread : ℕ) (c : Controller) : Registration :=
  match c.point with
  | .observed through =>
    match s.tables.recordAllocationRegistration c.epoch true through with
    | .error _ => s.resume thread c .failed
    | .ok tables => { s with tables }.resume thread c (.accepted through)
  | .acknowledged through =>
    match s.tables.recordAllocationRegistration c.epoch true through with
    | .error _ => s.resume thread c .failed
    | .ok tables => { s with tables }.resume thread c (.synced through)
  | _ => s

/-- Read the next batch and send it. -/
def read (host : HostId) (s : Registration) (thread : ℕ) (c : Controller) : Registration :=
  match c.point with
  | .accepted through =>
    match s.tables.allocationPermitsAfter host through with
    | .error _ => s.resume thread c .failed
    | .ok batch =>
      if batch.hasUnissuedAllocations = true then s.resume thread c .failed
      else
        match batch.permits.getLast? with
        | none => s.resume thread c (.synced through)
        | some last =>
          (s.send { reportingEpoch := c.epoch, permits := batch.permits }).resume thread c
            (.registering s.calls.length last.serial batch.issuedThrough)
  | _ => s

/-- The end of `prepare_launch_permit`, and the create that is sent with the permit. -/
def create (s : Registration) (thread : ℕ) (c : Controller) (owner : Ownership) : Registration :=
  match c.point with
  | .synced through =>
    match s.tables.allocationLaunchPermit owner with
    | none => s.resume thread c .failed
    | some permit =>
      if through < permit.serial then s.resume thread c .failed
      else { s with creates := s.creates ++ [permit] }
  | _ => s

/-! ### The host -/

/-- The host takes up a call when it is idle; a refused call is not answered. -/
def deliver (texts : Texts) (host : HostId) (s : Registration) (call : ℕ) (granted : Bool)
    (write : Write) : Registration :=
  match s.calls[call]?, s.root.process with
  | some request, some p =>
    if p.point = .serving then
      let root := s.root.step texts host (.sync request.reportingEpoch request.permits granted write)
      { s with root, serving := if root.process = some p then none else some call }
    else s
  | _, _ => s

/-- What the host answers when it leaves a call: nothing after a rollback or a failed save. -/
def acknowledged (root : Launch) (write : Write) : Option Checkpoint :=
  root.process.bind fun p =>
    match p.point with
    | .syncing checkpoint =>
      let prior := p.journal.launchAuthority
      if checkpoint.registeredThrough < prior.registeredThrough ∨ (prior ≠ checkpoint ∧ write ≠ .done)
      then none
      else some checkpoint
    | _ => none

def answer (s : Registration) (write : Write) : List Reply :=
  match s.serving, acknowledged s.root write with
  | some call, some checkpoint =>
    [{ call, reportingEpoch := checkpoint.epoch, registeredThrough := checkpoint.registeredThrough }]
  | _, _ => []

/-- What else happens at the host: starts, retirements, other saves and failures. Only a call
registers permits. -/
def Internal : Launch.Event → Prop
  | .sync _ permits _ _ => permits = []
  | .compete _ _ request _ => request.permits = []
  | _ => True

def internal (texts : Texts) (host : HostId) (s : Registration) (event : Launch.Event) :
    Registration :=
  let next := { s with root := s.root.step texts host event }
  match event with
  | .advance _ write => { next with replies := s.replies ++ s.answer write, serving := none }
  | .openJournal .. | .crash | .powerLoss .. => { next with serving := none }
  | .sync .. | .save _ | .compete .. => next

/-! ### Runs -/

inductive Event where
  | addOperation (row : OperationRow)
  | reserve (id : AllocationId) (operation : OperationId)
  | registerHost (epoch : ℤ)
  | begin (epoch : ℤ) (required : Bool)
  | receive (thread : ℕ) (reply : Option ℕ)
  | accept (thread : ℕ)
  | read (thread : ℕ)
  | create (thread : ℕ) (owner : Ownership)
  | deliver (call : ℕ) (granted : Bool) (write : Write)
  | host (event : { event : Launch.Event // Internal event })

/-- Identities are minted as version 7, and epochs are words. -/
def Event.Minted : Event → Prop
  | .addOperation row => row.id.uuid.Valid ∧ row.projectId.uuid.Valid ∧ row.sandboxId.uuid.Valid
  | .reserve id _ => id.uuid.Valid
  | .registerHost epoch => epoch < 2 ^ 63
  | .host event => event.1.Words
  | _ => True

section
variable (texts : Texts) (host : HostId)

def withController (s : Registration) (thread : ℕ) (next : Controller → Registration) :
    Registration :=
  match s.controllers[thread]? with
  | none => s
  | some c => next c

def step (s : Registration) : Event → Registration
  | .addOperation row => { s with tables := Checked.commit s.tables (s.tables.addOperation row) }
  | .reserve id operation =>
    { s with tables := Checked.commit s.tables (s.tables.reserve host id operation) }
  | .registerHost epoch => { s with tables := s.tables.registerHost epoch }
  | .begin epoch required => s.begin epoch required
  | .receive thread reply =>
    match reply with
    | none => s.withController thread fun c => s.receive thread c none
    | some index =>
      match s.replies[index]? with
      | none => s
      | some reply => s.withController thread fun c => s.receive thread c (some reply)
  | .accept thread => s.withController thread fun c => s.accept thread c
  | .read thread => s.withController thread fun c => s.read host thread c
  | .create thread owner => s.withController thread fun c => s.create thread c owner
  | .deliver call granted write => s.deliver texts host call granted write
  | .host event => s.internal texts host event.1

def runs (s : Registration) (events : List Event) : Registration := Run.run (step texts host) s events

end

/-- A provisioned host, and tables in which allocations of before may have no permits. -/
def initial (root : Launch) (tables : Tables) : Registration :=
  { tables, root, calls := [], serving := none, replies := [], controllers := [], creates := [] }

/-- The store before the first permit of the host. -/
structure Tables.Fresh (tables : Tables) : Prop where
  none_issued : tables.permits = []
  serial : tables.lastAllocationSerial = 0
  registered : tables.registeredAllocationSerial = 0
  allocations : (tables.allocations.map (·.id)).Nodup
  operations : (tables.operations.map (·.id)).Nodup
  minted : ∀ o ∈ tables.operations, o.id.uuid.Valid ∧ o.projectId.uuid.Valid ∧ o.sandboxId.uuid.Valid
  epoch : tables.supervisorEpoch < 2 ^ 63

end Registration
end HudsonSandbox
