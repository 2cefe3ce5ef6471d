import HudsonSandbox.Protocol.HostRequests
import HudsonSandbox.Protocol.Output
import Mathlib.Data.List.AList

/-!
# The retained record of one allocation

What a host journals for an allocation: the operations it has fenced, the commands and uploads
it has admitted, and the floors below which each domain's history is closed. The checks here
read one record; the requests that call them stand in the modules of the same directory.
-/

namespace HudsonSandbox.Host
open Checked LiveOutput GuestModel Command History SupervisorFiles Supervisor AllocationAuthority
  Output

inductive Code where
  | invalidArgument | notFound | alreadyExists | permissionDenied | resourceExhausted
  | failedPrecondition | unavailable
  deriving DecidableEq, Repr

structure Status where
  code : Code
  message : String
  deriving DecidableEq, Repr

/-- Whatever went wrong is logged, not returned. -/
def uncertain : Status :=
  ⟨.unavailable, "host operation uncertain; inspect retained allocation before retry"⟩

abbrev Map (V : Type) := AList fun _ : OperationId => V

structure Retirement where
  barrier : Barrier
  revision : ℤ
  requestedThrough : OperationId
  completed : Bool
  deriving DecidableEq

structure ReleasedRetirement where
  version : ℕ
  through : OperationId
  requestedThrough : OperationId
  revision : ℤ
  reportingEpoch : ℤ
  deriving DecidableEq

/-- The guardian's manifest, as far as the host reads it back. -/
structure Manifest where
  launchPermit : Option Permit
  allocation : AllocationId
  createOperation : OperationId
  generation : ℤ
  deriving DecidableEq

structure ArchiveRecord where
  ticket : OutputTicket
  plans : Option OutputPlans
  revision : ℤ
  deriving DecidableEq

structure Record where
  owner : Ownership
  retirement : Option AllocationRetirement.Request
  revisions : Map ℤ
  create : Option CreateRequest
  manifest : Option Manifest
  dispatched : Bool
  stopped : Bool
  released : Bool
  commands : Map CommandRecord
  files : Map FileRecord
  archives : Map ArchiveRecord
  commandHistory : Option Retirement
  fileHistory : Option Retirement
  releasedCommands : Option ReleasedRetirement
  releasedFiles : Option ReleasedRetirement
  leaseRevision : ℤ
  leaseRequest : Option (ℤ × ℤ)
  deriving DecidableEq

/-- The row that `gate` inserts for an allocation it has not seen. -/
def Record.new (owner : Ownership) : Record :=
  { owner, retirement := none, revisions := ∅, create := none, manifest := none,
    dispatched := false, stopped := false, released := false, commands := ∅, files := ∅,
    archives := ∅, commandHistory := none, fileHistory := none, releasedCommands := none,
    releasedFiles := none, leaseRevision := 0, leaseRequest := none }

def sameAllocation (a b : Ownership) : Prop :=
  a.hostId = b.hostId ∧ a.projectId = b.projectId ∧ a.sandboxId = b.sandboxId ∧
    a.allocationId = b.allocationId ∧ a.generation = b.generation ∧
    a.supervisorEpoch = b.supervisorEpoch

instance (a b : Ownership) : Decidable (sameAllocation a b) := inferInstanceAs (Decidable (_ ∧ _))

/-- The guest of this manifest, when its guardian answers with a bound boot. -/
def Manifest.guestClient (self : Manifest) (boot : Option String) : Option Context :=
  boot.map fun bootId => { allocationId := self.allocation, generation := self.generation, bootId }

namespace Record

/-- `retirement::check` -/
def retirementCheck (record : Record) : Except Status Unit :=
  ensure (record.retirement = none)
    ⟨.failedPrecondition, "allocation retirement in progress; no release proof"⟩

def slot (record : Record) : Domain → Option Retirement
  | .commands => record.commandHistory
  | .files => record.fileHistory

def setSlot (record : Record) (domain : Domain) (value : Option Retirement) : Record :=
  match domain with
  | .commands => { record with commandHistory := value }
  | .files => { record with fileHistory := value }

def releasedSlot (record : Record) : Domain → Option ReleasedRetirement
  | .commands => record.releasedCommands
  | .files => record.releasedFiles

def setReleasedSlot (record : Record) (domain : Domain) (value : Option ReleasedRetirement) :
    Record :=
  match domain with
  | .commands => { record with releasedCommands := value }
  | .files => { record with releasedFiles := value }

/-- `history::check` -/
def check (record : Record) (domain : Domain) (id : OperationId) : Except Status Unit := do
  record.retirementCheck
  ensure (∀ r ∈ record.releasedSlot domain, ¬id ≤ r.through)
    ⟨.failedPrecondition, "destroyed allocation history retired"⟩
  ensure (∀ r ∈ record.slot domain, ¬r.barrier.covers id)
    ⟨.failedPrecondition, "operation history retired"⟩

/-- The operations that have a retained record in the domain. -/
def names (record : Record) : Domain → List OperationId
  | .commands => record.commands.keys
  | .files => record.files.keys

end Record

def eraseAll {V : Type} (map : Map V) (ids : List OperationId) : Map V :=
  ids.foldl (fun map id => map.erase id) map

/-- Drop the domain's records of these operations, their archives and their revision fences. -/
def Record.remove (record : Record) (domain : Domain) (ids : List OperationId) : Record :=
  match domain with
  | .commands =>
    { record with
      commands := eraseAll record.commands ids
      archives := eraseAll record.archives ids
      revisions := eraseAll record.revisions ids }
  | .files =>
    { record with
      files := eraseAll record.files ids
      revisions := eraseAll record.revisions ids }

/-! ### Retirement of a live guest's history -/

section Live
variable (enc : FileEncoding)

def commandEligible (barrier : Barrier) (id : OperationId) (command : CommandRecord) : Prop :=
  command.finished ∧ (command.notStarted = true ∨ command.context = some barrier.context ∧
    ∃ receipt ∈ command.receipt, command.validateReceipt id receipt = .ok ())

instance (barrier : Barrier) (id : OperationId) (command : CommandRecord) :
    Decidable (commandEligible barrier id command) := inferInstanceAs (Decidable (_ ∧ _))

def fileEligible (barrier : Barrier) (file : FileRecord) : Prop :=
  file.validate enc = .ok () ∧ (file.notStarted = true ∨ file.state = 3 ∨ file.state = 5) ∧
    (file.notStarted = true ∨ file.context = some barrier.context)

instance (barrier : Barrier) (file : FileRecord) : Decidable (fileEligible enc barrier file) :=
  inferInstanceAs (Decidable (_ ∧ _))

/-- Every record the barrier covers has a known end in the barrier's own boot. -/
def eligible (record : Record) (barrier : Barrier) : Prop :=
  match barrier.domain with
  | .commands => ∀ entry ∈ record.commands.entries, barrier.covers entry.1 →
      commandEligible barrier entry.1 entry.2
  | .files => ∀ entry ∈ record.files.entries, barrier.covers entry.1 → fileEligible enc barrier entry.2

instance (record : Record) (barrier : Barrier) : Decidable (eligible enc record barrier) := by
  unfold eligible
  split <;> infer_instance

/-- A request within the retained barrier only renews its claim; one beyond it needs the
retained one completed. -/
def renew (current : Option Retirement) (requested : Barrier) (revision : ℤ) :
    Except String (Option Retirement) :=
  match current with
  | none => pure none
  | some current => do
    ensure (current.barrier.context = requested.context) "retirement boot changed"
    ensure (current.revision ≤ revision) "stale retirement claim"
    ensure (revision ≠ current.revision ∨ requested.through = current.requestedThrough)
      "retirement claim payload changed"
    if requested.through ≤ current.barrier.through then
      pure (some { current with revision, requestedThrough := requested.through })
    else do
      ensure (current.completed = true) "previous retirement incomplete"
      pure none

def prepare (record : Record) (requested : Barrier) (revision : ℤ) : Except String Retirement := do
  ensure (0 < revision) "invalid retirement revision"
  requested.validate requested.context requested.domain
  ensure (requested.context.allocationId = record.owner.allocationId ∧
    requested.context.generation = record.owner.generation) "retirement allocation mismatch"
  match ← renew (record.slot requested.domain) requested revision with
  | some next => pure next
  | none =>
    ensure (eligible enc record requested) "unresolved retirement history"
    pure { barrier := requested, revision, requestedThrough := requested.through, completed := false }

def complete (record : Record) (retirement : Retirement) : Except String Record := do
  let domain := retirement.barrier.domain
  let current ← okOr (record.slot domain) "retirement missing"
  ensure (current.barrier = retirement.barrier ∧ current.revision = retirement.revision)
    "retirement ownership changed"
  ensure (eligible enc record retirement.barrier) "unresolved retirement history"
  let covered := (record.names domain).filter fun id => retirement.barrier.covers id
  pure ((record.remove domain covered).setSlot domain (some { current with completed := true }))

end Live

/-! ### Retirement of a destroyed allocation's history -/

section Released
variable (enc : FileEncoding)

def validId (id : OperationId) : Except String Unit :=
  ensure id.uuid.Valid "invalid admission identity"

def coveredNames (record : Record) (domain : Domain) (through : OperationId) :
    Except String (List OperationId) := do
  ensure (∀ id ∈ record.names domain, id.uuid.Valid) "invalid admission identity"
  pure ((record.names domain).filter fun id => id ≤ through)

/-- The context ran under the boot that the allocation's guardian retained. -/
def originalBoot (record : Record) (boot : Option String) (context : Option Context) : Prop :=
  ∃ c ∈ context, c.allocationId = record.owner.allocationId ∧
    c.generation = record.owner.generation ∧ boot = some c.bootId

instance (record : Record) (boot : Option String) (context : Option Context) :
    Decidable (originalBoot record boot context) := inferInstanceAs (Decidable (∃ _ ∈ context, _))

def releasedCommandEligible (record : Record) (boot : Option String) (id : OperationId)
    (command : CommandRecord) : Prop :=
  command.finished ∧ (command.notStarted = true ∨
    (∃ receipt ∈ command.receipt, command.validateReceipt id receipt = .ok ()) ∧
      originalBoot record boot command.context)

instance (record : Record) (boot : Option String) (id : OperationId) (command : CommandRecord) :
    Decidable (releasedCommandEligible record boot id command) := inferInstanceAs (Decidable (_ ∧ _))

def releasedFileEligible (record : Record) (boot : Option String) (file : FileRecord) : Prop :=
  file.validate enc = .ok () ∧ (file.notStarted = true ∨
    (file.state = 3 ∨ file.state = 5) ∧ originalBoot record boot file.context)

instance (record : Record) (boot : Option String) (file : FileRecord) :
    Decidable (releasedFileEligible enc record boot file) := inferInstanceAs (Decidable (_ ∧ _))

def releasedEligible (record : Record) (boot : Option String) (domain : Domain)
    (ids : List OperationId) : Prop :=
  match domain with
  | .commands => ∀ entry ∈ record.commands.entries, entry.1 ∈ ids →
      releasedCommandEligible record boot entry.1 entry.2
  | .files => ∀ entry ∈ record.files.entries, entry.1 ∈ ids →
      releasedFileEligible enc record boot entry.2

instance (record : Record) (boot : Option String) (domain : Domain) (ids : List OperationId) :
    Decidable (releasedEligible enc record boot domain ids) :=
  match domain with
  | .commands => inferInstanceAs (Decidable (∀ entry ∈ record.commands.entries, entry.1 ∈ ids →
      releasedCommandEligible record boot entry.1 entry.2))
  | .files => inferInstanceAs (Decidable (∀ entry ∈ record.files.entries, entry.1 ∈ ids →
      releasedFileEligible enc record boot entry.2))

/-- The prefix that is closed once the request succeeds: it never goes back. -/
def reclaimThrough (old : Option ReleasedRetirement) (through : OperationId) (revision epoch : ℤ) :
    Except String OperationId :=
  match old with
  | none => pure through
  | some old => do
    ensure (old.revision ≤ revision ∧ old.reportingEpoch ≤ epoch) "stale destruction retirement"
    ensure (revision ≠ old.revision ∨ through = old.requestedThrough ∧ epoch = old.reportingEpoch)
      "retirement claim changed"
    pure (max through old.through)

/-- `boot` is what the guardian's receipt says, where there is a manifest to read one for. -/
def reclaim (record : Record) (boot : Except String (Option String)) (domain : Domain)
    (through : OperationId) (revision epoch : ℤ) : Except String (Record × OperationId) := do
  validId through
  ensure (record.stopped = true ∧ 0 < revision ∧ record.owner.supervisorEpoch ≤ epoch)
    "invalid destruction retirement"
  let completed ← reclaimThrough (record.releasedSlot domain) through revision epoch
  let ids ← coveredNames record domain completed
  let boot ← if record.manifest.isSome then boot else pure none
  ensure (releasedEligible enc record boot domain ids) "unresolved destroyed history"
  let next := (record.remove domain ids).setReleasedSlot domain (some
    { version := 1, through := completed, requestedThrough := through, revision,
      reportingEpoch := epoch })
  pure (next, completed)

end Released

end HudsonSandbox.Host
