import HudsonSandbox.Inner.Authority
import HudsonSandbox.Library.Run

/-!
# The journal and the launch authority of a host

`launch.json` holds the epoch and the ledger, and `host.json` the checkpoint up to which the
journal has seen it. The two files are replaced one after the other, by a host process that starts
or that answers a registration; other processes write the ledger under an epoch of their own, and
the process or its power may fail between any two steps.
-/

namespace HudsonSandbox
namespace Launch
open Checked AllocationAuthority AllocationRetirement Stored
open Inner (AuthorityFile Checkpoint Texts)

section
variable (texts : Texts) (host : HostId)

/-! ### The file -/

/-- Startup reconciles an interrupted epoch advance with it. -/
def retainedCheckpoint (file : AuthorityFile) (minimum : Checkpoint) : Except String Checkpoint := do
  let ledger ← file.load texts host minimum
  pure { epoch := file.epoch, registeredThrough := ledger.through }

def checkpoint (file : AuthorityFile) (minimum : Checkpoint) (reportingEpoch : ℤ) :
    Except String Checkpoint := do
  let ledger ← file.load texts host minimum
  ensure (file.epoch = reportingEpoch) "stale launch authority reader"
  pure { epoch := file.epoch, registeredThrough := ledger.through }

def advanceEpoch (file : AuthorityFile) (minimum : Checkpoint) (previousEpoch nextEpoch : ℤ) :
    Except String AuthorityFile := do
  let ledger ← file.load texts host minimum
  ensure (file.epoch = previousEpoch ∧ file.epoch < nextEpoch) "launch epoch did not advance"
  AuthorityFile.save texts nextEpoch ledger

/-- What a holder of the file does to the ledger under its own bounds and epoch. -/
def mutate (file : AuthorityFile) (minimum : Checkpoint) (reportingEpoch : ℤ) :
    Authority.Request → Except String AuthorityFile
  | .register permits => file.register texts host minimum reportingEpoch permits
  | request => file.update texts host minimum reportingEpoch fun ledger =>
      ledger.apply texts.json texts.intents texts.sha256 request

end

/-! ### A host process -/

/-- What the journal says of its epoch and of the authority; permits are required. -/
structure Saved where
  epoch : ℤ
  launchAuthority : Checkpoint
  deriving DecidableEq, Repr

/-- Where a process stands in its start or in a request. -/
inductive Point where
  /-- The journal is saved in the new epoch. -/
  | opened
  /-- The authority was read under the bounds that the journal retained. -/
  | attached
  | inspected (current : Checkpoint)
  /-- The authority is in the new epoch. -/
  | advanced
  | bounded (checkpoint : Checkpoint)
  | serving
  /-- A request has its checkpoint and keeps the journal mutex. -/
  | syncing (checkpoint : Checkpoint)
  deriving DecidableEq, Repr

/-- `floor` is the lower bound that the process's handle of the authority was opened with. -/
structure Process where
  epoch : ℤ
  floor : Checkpoint
  journal : Saved
  poisoned : Bool
  point : Point
  deriving DecidableEq

end Launch

open Launch in
/-- `process` holds `host.lock`, so there is at most one. -/
structure Launch where
  file : Stored Inner.AuthorityFile
  journal : Stored Saved
  process : Option Process
  deriving DecidableEq

namespace Launch
open Checked AllocationAuthority AllocationRetirement Stored Run
open Inner (AuthorityFile Checkpoint Texts)

def exit (s : Launch) : Launch := { s with process := none }

def resume (s : Launch) (p : Process) (point : Point) : Launch :=
  { s with process := some { p with point } }

/-- `journal::open`; `accepted` says that the records the journal retains are valid. -/
def openJournal (s : Launch) (epoch : ℤ) (accepted : Bool) (write : Write) : Launch :=
  if s.process.isSome = true then s
  else if s.journal.visible.epoch < epoch ∧ accepted = true then
    let journal := { s.journal.visible with epoch }
    let saved := { s with journal := s.journal.write journal write }
    let p : Process :=
      { epoch, floor := journal.launchAuthority, journal, poisoned := false, point := .opened }
    if write = .done then saved.resume p .opened else saved
  else s

section
variable (texts : Texts) (host : HostId)

/-- `AuthorityFile::open` under the journal's checkpoint. -/
def attach (s : Launch) (p : Process) (granted : Bool) : Launch :=
  let retained := p.journal.launchAuthority
  if granted = true ∧ 0 < retained.epoch ∧ retained.epoch ≤ p.epoch then
    match s.file.visible.load texts host p.floor with
    | .error _ => s.exit
    | .ok _ => s.resume p .attached
  else s.exit

def inspect (s : Launch) (p : Process) (granted : Bool) : Launch :=
  if granted = true then
    match retainedCheckpoint texts host s.file.visible p.floor with
    | .error _ => s.exit
    | .ok current => { s with file := s.file.sync }.resume p (.inspected current)
  else s.exit

/-- A start that finds its own epoch has nothing to advance. -/
def advanceAuthority (s : Launch) (p : Process) (current : Checkpoint) (granted : Bool)
    (write : Write) : Launch :=
  if current.epoch < p.epoch then
    if granted = true then
      match advanceEpoch texts host s.file.visible p.floor current.epoch p.epoch with
      | .error _ => s.exit
      | .ok saved =>
        let written := { s with file := s.file.write saved write }
        if write = .done then written.resume p .advanced else written.exit
    else s.exit
  else if current.epoch = p.epoch then s.resume p .advanced
  else s.exit

def bound (s : Launch) (p : Process) (granted : Bool) : Launch :=
  if granted = true then
    match checkpoint texts host s.file.visible p.floor p.epoch with
    | .error _ => s.exit
    | .ok current => { s with file := s.file.sync }.resume p (.bounded current)
  else s.exit

end

/-- Save the journal with a checkpoint; a failed save poisons it. -/
def record (s : Launch) (p : Process) (checkpoint : Checkpoint) (write : Write) : Launch :=
  let journal := { p.journal with launchAuthority := checkpoint }
  let poisoned := decide (write ≠ Write.done)
  { s with journal := s.journal.write journal write }.resume { p with journal, poisoned } .serving

/-- The last save of a start; the process does not outlive its failure. -/
def serve (s : Launch) (p : Process) (checkpoint : Checkpoint) (write : Write) : Launch :=
  if write = .done then s.record p checkpoint write else (s.record p checkpoint write).exit

/-- The end of `allocation_authority_sync`. -/
def acknowledge (s : Launch) (p : Process) (checkpoint : Checkpoint) (write : Write) : Launch :=
  let prior := p.journal.launchAuthority
  if checkpoint.registeredThrough < prior.registeredThrough then s.resume p .serving
  else if prior ≠ checkpoint then s.record p checkpoint write
  else s.resume p .serving

section
variable (texts : Texts) (host : HostId)

/-- The process takes its next step; `granted` says that other processes leave the lock. -/
def advance (s : Launch) (p : Process) (granted : Bool) (write : Write) : Launch :=
  match p.point with
  | .opened => s.attach texts host p granted
  | .attached => s.inspect texts host p granted
  | .inspected current => s.advanceAuthority texts host p current granted write
  | .advanced => s.bound texts host p granted
  | .bounded checkpoint => s.serve p checkpoint write
  | .serving => s
  | .syncing checkpoint => s.acknowledge p checkpoint write

/-- `serde_json::to_vec(&batch.permits)` -/
def permitsJson (permits : List Permit) : List UInt8 :=
  Text.utf8 (Text.array (permits.map Permit.text))

/-- The first half of `allocation_authority_sync`: an empty batch only inspects. -/
def sync (s : Launch) (p : Process) (reportingEpoch : ℤ) (permits : List Permit) (granted : Bool)
    (write : Write) : Launch :=
  if p.point = .serving ∧ p.poisoned = false ∧ reportingEpoch = p.epoch ∧ granted = true then
    if permits = [] then
      match checkpoint texts host s.file.visible p.floor reportingEpoch with
      | .error _ => s
      | .ok current => { s with file := s.file.sync }.resume p (.syncing current)
    else if 65536 < (permitsJson permits).length then s
    else
      match s.file.visible.register texts host p.floor reportingEpoch permits with
      | .error _ => s
      | .ok saved =>
        let written := { s with file := s.file.write saved write }
        if write = .done then
          written.resume p (.syncing
            { epoch := saved.epoch, registeredThrough := saved.ledger.through })
        else written
  else s

/-- Another holder of the file. -/
def compete (s : Launch) (minimum : Checkpoint) (reportingEpoch : ℤ) (request : Authority.Request)
    (write : Write) : Launch :=
  match mutate texts host s.file.visible minimum reportingEpoch request with
  | .error _ => s
  | .ok saved => { s with file := s.file.write saved write }

end

/-- Any other request of a serving process saves the journal with what it knows of the authority. -/
def save (s : Launch) (p : Process) (write : Write) : Launch :=
  if p.point = .serving ∧ p.poisoned = false then s.record p p.journal.launchAuthority write else s

/-- Each file keeps its last rename or loses it. -/
def powerLoss (s : Launch) (journal authority : Bool) : Launch :=
  { file := s.file.recover authority, journal := s.journal.recover journal, process := none }

inductive Event where
  | openJournal (epoch : ℤ) (accepted : Bool) (write : Write)
  | advance (granted : Bool) (write : Write)
  | sync (reportingEpoch : ℤ) (permits : List Permit) (granted : Bool) (write : Write)
  | save (write : Write)
  | compete (minimum : Checkpoint) (reportingEpoch : ℤ) (request : Authority.Request) (write : Write)
  | crash
  | powerLoss (journal authority : Bool)

/-- The permits of an event have the words of the source's type. -/
def Event.Words : Event → Prop
  | .sync _ permits _ _ => ∀ p ∈ permits, p.Words
  | .compete _ _ request _ => request.Words
  | .openJournal .. | .advance .. | .save _ | .crash | .powerLoss .. => True

/-- `AuthorityFile::initialize` and the first save of the journal, by the process that goes on to
open the authority. -/
def provision (texts : Texts) (host : HostId) (epoch : ℤ) : Except String Launch := do
  ensure (0 < epoch) "positive launch epoch required"
  let ledger ← (Authority.new host).mapError fun _ => "invalid host"
  let file ← AuthorityFile.save texts epoch ledger
  let checkpoint : Checkpoint := { epoch, registeredThrough := ledger.through }
  let journal : Saved := { epoch, launchAuthority := checkpoint }
  let p : Process := { epoch, floor := checkpoint, journal, poisoned := false, point := .opened }
  pure { file := .of file, journal := .of journal, process := some p }

section
variable (texts : Texts) (host : HostId)

def step (s : Launch) : Event → Launch
  | .openJournal epoch accepted write => s.openJournal epoch accepted write
  | .advance granted write =>
    match s.process with
    | none => s
    | some p => s.advance texts host p granted write
  | .sync reportingEpoch permits granted write =>
    match s.process with
    | none => s
    | some p => s.sync texts host p reportingEpoch permits granted write
  | .save write =>
    match s.process with
    | none => s
    | some p => s.save p write
  | .compete minimum reportingEpoch request write =>
    s.compete texts host minimum reportingEpoch request write
  | .crash => s.exit
  | .powerLoss journal authority => s.powerLoss journal authority

def runs (s : Launch) (events : List Event) : Launch := run (step texts host) s events

theorem runs_append (s : Launch) (before after : List Event) :
    s.runs texts host (before ++ after) = (s.runs texts host before).runs texts host after :=
  run_append s before after

end

end Launch
end HudsonSandbox
