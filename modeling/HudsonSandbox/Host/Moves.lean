import HudsonSandbox.Host.System
import Mathlib.Logic.Relation

/-!
# What a host can do

Every request, crash and restart is a sequence of moves, and a move names all that the code knows
when it makes it. An invariant of the host is proved once for each move.
-/

namespace HudsonSandbox.Host
open Checked LiveOutput GuestModel Command History SupervisorFiles Supervisor Output Effect Run
  Files

/-- The host serves requests and this is the record they read. -/
structure Live (s : Host) (record : Record) : Prop where
  up : s.up = true
  unpoisoned : s.poisoned = false
  found : s.record = some record

/-- The ownership was checked against this process of the host. -/
structure Owned (s : Host) (o : Ownership) : Prop where
  host : o.hostId = s.host
  epoch : o.supervisorEpoch = s.epoch
  allocation : o.allocationId = s.allocation
  generation : 0 < o.generation
  revision : 0 < o.claimRevision

section
variable (commands : CommandEncoding) (files : FileEncoding) (fences : OperationId → Prop)

/-- What a waiting request was checked for when it arrived. -/
def Sound (s : Host) : Waiting → Prop
  | .execute o command digest => Owned s o ∧ command.operationId = o.operationId ∧
      command.outputLimit ≤ Command.MAX_OUTPUT ∧ command.digest commands = .ok digest
  | .inspectOrCancel o _ _ | .inspect o _ | .lease o _ _ => Owned s o
  | .file o upload digest _ => Owned s o ∧ upload.operationId = o.operationId ∧
      files.digest upload = .ok digest
  | .create o request => Owned s o ∧ request.ownership = some o ∧
      authorizeCreate s.launchPermitsRequired o request true = .ok ⟨⟩
  | .retireHistory o _ lease _ => Owned s o ∧ ∃ generated, o = historyOwner lease generated
  | .retireReleasedHistory o request lease domain _ => request.domain = some domain ∧ o.hostId = s.host ∧
      o.allocationId = s.allocation ∧ o.supervisorEpoch = lease.supervisorEpoch ∧
      request.reportingEpoch = s.epoch ∧ 0 < lease.supervisorEpoch ∧
      lease.supervisorEpoch ≤ s.epoch ∧ 0 < lease.revision
  | .prepareOutput request | .finishOutput request _ =>
      ∃ ticket ∈ request.ticket, ticket.owner.hostId = s.host
  | .previous o => o.hostId = s.host ∧ o.allocationId = s.allocation ∧ o.supervisorEpoch < s.epoch
  | .reconcile record => record.manifest.isSome = true ∧
      (s.poisoned = false → ∃ current, s.record = some current ∧ current.manifest.isSome = true)
  | .fenceAllocation request => request.intent.permit.allocation = s.allocation

/-- What a command request knows of the record before it may fence its operation. -/
structure CommandHeld (o : Ownership) (record : Record) : Prop where
  check : record.check .commands o.operationId = .ok ⟨⟩
  room : commandRoom o record = .ok ⟨⟩

/-- The save of a command's intent, before it is sent. -/
structure Intends (o : Ownership) (record : Record) (command : Execute) (retained : CommandRecord) :
    Prop where
  held : CommandHeld o record
  fenced : o.operationId ∈ record.revisions
  absent : o.operationId ∉ record.commands
  operation : command.operationId = o.operationId
  limit : command.outputLimit ≤ Command.MAX_OUTPUT
  admissible : ∃ now, admissible record command now
  pending : ∃ manifest boot client, record.manifest = some manifest ∧
    manifest.guestClient boot = some client ∧
    CommandRecord.pending commands command client = .ok retained

/-- The admission of an upload, before anything is sent. -/
structure AdmitsFile (o : Ownership) (record : Record) (upload : Upload) (file : FileRecord) :
    Prop where
  check : record.check .files o.operationId = .ok ⟨⟩
  room : ∃ t, fileRoom o record file t = .ok ⟨⟩
  valid : file.validate files = .ok ()
  absent : o.operationId ∉ record.files
  origin : (∃ digest, file = FileRecord.fenced digest) ∨
    ∃ manifest boot client, record.manifest = some manifest ∧
      manifest.guestClient boot = some client ∧ FileRecord.pending files upload client = .ok file

/-- The retained record of an upload that has not ended. -/
structure FileHeld (id : OperationId) (record : Record) (file : FileRecord) : Prop where
  found : record.files.lookup id = some file
  unfinished : ¬file.finished

/-- One save of the journal, given the record it read. `fences` are the operations that a command
request may fence. -/
inductive Change (s : Host) (record : Record) : Record → Prop where
  | fenceCommand {o next} (allowed : fences o.operationId) (held : CommandHeld o record)
      (passed : fenced o record = .ok next) : Change s record next
  | fenceFile {o next} (retained : o.operationId ∈ record.files)
      (passed : fenced o record = .ok next) : Change s record next
  | fenceLifecycle {o next} (marked : o.operationId ∈ s.lifecycle) (owned : Owned s o)
      (passed : fenced o record = .ok next) : Change s record next
  | tombstone {o digest} (held : CommandHeld o record) (fenced : o.operationId ∈ record.revisions)
      (absent : o.operationId ∉ record.commands) : Change s record
        { record with
          commands := record.commands.insert o.operationId (CommandRecord.fenced digest) }
  | intend {o command retained} (intends : Intends commands o record command retained) :
      Change s record { record with commands := record.commands.insert o.operationId retained }
  | confirm {id command receipt} (found : record.commands.lookup id = some command)
      (unfinished : ¬command.finished) (valid : command.validateReceipt id receipt = .ok ()) :
      Change s record
        { record with commands := record.commands.insert id { command with receipt := some receipt } }
  | admitFile {o upload file} (admits : AdmitsFile files o record upload file) : Change s record
        { record with
          revisions := record.revisions.insert o.operationId o.claimRevision
          files := record.files.insert o.operationId file }
  | requestCommit {id file} (held : FileHeld id record file) (commit : file.commitRequested = false)
      (abort : file.abortRequested = false) (staged : file.state = 1)
      (valid : { file with commitRequested := true }.validate files = .ok ()) : Change s record
        { record with files := record.files.insert id { file with commitRequested := true } }
  | requestAbort {id file} (held : FileHeld id record file) (abort : file.abortRequested = false)
      (valid : { file with abortRequested := true }.validate files = .ok ()) : Change s record
        { record with files := record.files.insert id { file with abortRequested := true } }
  | observeFile {id file upload receipt moved} (held : FileHeld id record file)
      (observed : file.observe files upload receipt = .ok moved) : Change s record
        { record with files := record.files.insert id moved }
  | stop : Change s record { record with stopped := true }
  | release (owner : record.manifest.isSome = true) :
      Change s record { record with stopped := true, released := true }
  | create {o request} (fresh : record.create = none) (running : record.stopped = false)
      (same : sameAllocation record.owner o) (unretired : record.retirement = none)
      (authorized : authorizeCreate s.launchPermitsRequired o request true = .ok ⟨⟩) :
      Change s record { record with create := some request, manifest := some (manifest o request) }
  | dispatched (owner : record.manifest.isSome = true) (unretired : record.retirement = none) :
      Change s record { record with dispatched := true }
  | lease {o lease expires next} (passed : leased o lease expires record = .ok next) :
      Change s record next
  | floor {barrier revision retirement boot client} (prepared : prepare files record barrier revision = .ok retirement)
      (guest : historyClient record retirement boot = .ok client) :
      Change s record (record.setSlot retirement.barrier.domain (some retirement))
  | complete {retirement next} (passed : complete files record retirement = .ok next)
      (running : record.stopped = false) : Change s record next
  | reclaim {boot domain through revision next completed} (unretired : record.retirement = none)
      (ended : record.manifest = none ∨ record.released = true)
      (passed : reclaim files record boot domain through revision s.epoch = .ok (next, completed)) :
      Change s record next
  | outputPrepared {ticket plans revision next} (positive : 0 < revision) (valid : ticket.validate = .ok ())
      (passed : outputPrepared ticket plans revision record = .ok next) : Change s record next
  | outputPlanned {ticket plans revision next}
      (passed : outputPlanned ticket plans revision record = .ok next) : Change s record next
  | freeze {request now next} (intent : request.intent.simulated = false)
      (valid : request.validate request.intent s.epoch 1 now = .ok ())
      (passed : ∃ later, frozen request s.epoch later record = .ok next) : Change s record next

/-- What an answer says is what the record says. -/
def Backed (record : Record) : Fact → Prop
  | .answered observation => observation.notStarted = true →
      ∃ command ∈ record.commands.lookup observation.ownership.operationId, command.notStarted = true
  | .retired observation => ∃ r ∈ record.slot observation.completed.domain,
      r.barrier = observation.completed ∧ r.completed = true
  | .reclaimed observation => ∃ domain ∈ observation.request.domain,
      ∃ r ∈ record.releasedSlot domain, r.through = observation.completedThrough
  | .wrote _ | .executed _ | .asked _ _ => False

def tell (s : Host) (fact : Fact) : Host := { s with facts := fact :: s.facts }

inductive Move : Host → Host → Prop where
  | poison {s} : Move s s.poison
  | lost {s} (record : Record) : Move s { s with record := some record, poisoned := true }
  | crash {s} : Move s s.crash
  | reopen {s epoch accepted record} (down : s.up = false)
      (opened : s.opened epoch accepted = .ok record) : Move s (s.reopen epoch record)
  | start {s epoch accepted record} (down : s.up = false)
      (opened : s.opened epoch accepted = .ok record) :
      Move s { s.reopen epoch record with
               up := true, epoch, poisoned := false, record, waiting := [] }
  | wait {s} (waiting : List Waiting) (sound : ∀ w ∈ waiting, Sound commands files s w) :
      Move s { s with waiting }
  | mark {s} (id : OperationId) : Move s { s with lifecycle := insert id s.lifecycle }
  | insert {s o} (up : s.up = true) (unpoisoned : s.poisoned = false) (missing : s.record = none)
      (owned : Owned s o) : Move s (s.store (Record.new o))
  | insertFenced {s request now next} (up : s.up = true) (unpoisoned : s.poisoned = false)
      (missing : s.record = none) (allocation : request.intent.permit.allocation = s.allocation)
      (host : request.intent.permit.host = s.host) (intent : request.intent.simulated = false)
      (valid : request.validate request.intent s.epoch 1 now = .ok ())
      (passed : ∃ later, frozen request s.epoch later (Record.empty request) = .ok next) :
      Move s (s.store next)
  | change {s record next} (live : Live s record) (change : Change commands files fences s record next) :
      Move s (s.store next)
  | send {s o record command retained} (live : Live s record)
      (intends : Intends commands o record command retained) :
      Move s ((s.store { record with
        commands := record.commands.insert o.operationId retained }).tell (.executed o.operationId))
  | askBegin {s id record file} (live : Live s record) (held : FileHeld id record file) :
      Move s (s.tell (.asked id .begin))
  | askInspect {s id record} (live : Live s record) : Move s (s.tell (.asked id .inspect))
  | askWrite {s id record file} (offset : ℕ) (data : List UInt8) (live : Live s record)
      (held : FileHeld id record file) (commit : file.commitRequested = false)
      (abort : file.abortRequested = false) (staged : file.state = 1) :
      Move s (s.tell (.asked id (.write offset data)))
  | askCommit {s id record file} (live : Live s record) (held : FileHeld id record file)
      (commit : file.commitRequested = false) (abort : file.abortRequested = false)
      (staged : file.state = 1)
      (valid : { file with commitRequested := true }.validate files = .ok ()) :
      Move s ((s.store { record with
        files := record.files.insert id { file with commitRequested := true } }).tell
          (.asked id .commit))
  | askAbort {s id record file} (live : Live s record) (held : FileHeld id record file)
      (abort : file.abortRequested = false)
      (valid : { file with abortRequested := true }.validate files = .ok ()) :
      Move s ((s.store { record with
        files := record.files.insert id { file with abortRequested := true } }).tell
          (.asked id .abort))
  | answer {s record fact} (live : Live s record) (backed : Backed record fact) :
      Move s (s.tell fact)

end
end HudsonSandbox.Host
