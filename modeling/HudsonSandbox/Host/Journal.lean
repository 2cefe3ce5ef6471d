import HudsonSandbox.Host.Record
import HudsonSandbox.Library.Effect
import Mathlib.Data.Finset.Insert

/-!
# The host journal

One allocation's view of its host: the record in memory, the journal on disk, and the requests
that wait for the allocation's gate. A request holds that gate from its first look at the record
to its answer, so requests of one allocation run one after another. The journal itself is shared:
between two critical sections of a request another allocation's save may have poisoned it, and
the host may be gone. Every section therefore names what becomes of it.
-/

namespace HudsonSandbox
namespace Host
open LiveOutput GuestModel Files History Supervisor Output

/-- What becomes of one critical section under the journal mutex. -/
inductive Disk where
  | written
  /-- The save failed before the rename. -/
  | lost
  /-- The save failed after the rename. -/
  | uncertain
  /-- Another allocation's save had poisoned the journal before this section. -/
  | refused
  | crashed (durable : Bool)
  deriving DecidableEq, Repr

/-- A clock reading and the critical section that follows it. -/
structure Moment where
  now : ℤ
  disk : Disk := .written
  deriving DecidableEq, Repr

/-- What a peer answers, if the host lives to read it. -/
inductive Reply (α : Type) where
  | received (value : α)
  | failed
  | crashed
  deriving DecidableEq

inductive Failure where
  | refused (status : Status)
  | crashed
  deriving DecidableEq

inductive FileAction where
  | begin | inspect | commit | abort
  | write (offset : ℕ) (data : List UInt8)
  deriving DecidableEq

/-- A request that has passed everything it checks before it holds the allocation's gate. -/
inductive Waiting where
  | execute (owner : Ownership) (command : Execute) (digest : Digest)
  | inspectOrCancel (owner : Ownership) (digest : Digest) (cancel : Bool)
  | file (owner : Ownership) (upload : Upload) (digest : Digest) (action : FileAction)
  | create (owner : Ownership) (request : CreateRequest)
  | inspect (owner : Ownership) (stop : Bool)
  | retireHistory (owner : Ownership) (request : HistoryRequest) (lease : LeaseOwnership)
      (barrier : Barrier)
  | retireReleasedHistory (owner : Ownership) (request : ReleasedHistoryRequest)
      (lease : LeaseOwnership) (domain : Domain) (through : OperationId)
  | prepareOutput (request : OutputRequest)
  | finishOutput (request : OutputRequest) (plans : OutputPlans)
  | lease (owner : Ownership) (lease : LeaseOwnership) (expires : Option ℤ)
  | previous (owner : Ownership)
  /-- Maintenance looks at the record before it tries the gate. -/
  | reconcile (record : Record)
  | fenceAllocation (request : AllocationRetirement.Request)
  deriving DecidableEq

/-- What the host wrote, sent and answered. -/
inductive Fact where
  | wrote (record : Record)
  | executed (operation : OperationId)
  | asked (operation : OperationId) (action : FileAction)
  | answered (observation : CommandObservation)
  | retired (observation : HistoryObservation)
  | reclaimed (observation : ReleasedHistoryObservation)

/-- What `host.json` holds of this allocation. -/
structure Journal where
  epoch : ℤ
  record : Option Record

end Host

open Host in
/-- `facts` and `lifecycle` are history that the code never reads: all facts, newest first, and
the operations under which a create, an inspection or a stop has asked for a fence. -/
structure Host where
  allocation : AllocationId
  host : HostId
  launchPermitsRequired : Bool
  up : Bool
  epoch : ℤ
  poisoned : Bool
  record : Option Record
  disk : Option Journal
  waiting : List Waiting
  lifecycle : Finset OperationId
  facts : List Fact

namespace Host
open Checked LiveOutput GuestModel History Supervisor Effect

abbrev HostM := EStateM Failure Host

/-- A host whose state directory holds nothing yet. -/
def new (allocation : AllocationId) (host : HostId) (launchPermitsRequired : Bool) : Host :=
  { allocation, host, launchPermitsRequired, up := false, epoch := 0, poisoned := false,
    record := none, disk := none, waiting := [], lifecycle := ∅, facts := [] }

/-- The journal on disk now holds this record. -/
def store (s : Host) (record : Record) : Host :=
  { s with
    record := some record
    disk := some { epoch := s.epoch, record := some record }
    facts := .wrote record :: s.facts }

def poison (s : Host) : Host := { s with poisoned := true }

def crash (s : Host) : Host :=
  { s with up := false, poisoned := false, record := none, waiting := [] }

@[simp] theorem store_record (s : Host) (record : Record) : (s.store record).record = some record :=
  rfl

@[simp] theorem store_up (s : Host) (record : Record) : (s.store record).up = s.up := rfl

@[simp] theorem store_poisoned (s : Host) (record : Record) :
    (s.store record).poisoned = s.poisoned := rfl

@[simp] theorem store_epoch (s : Host) (record : Record) : (s.store record).epoch = s.epoch := rfl

@[simp] theorem store_lifecycle (s : Host) (record : Record) :
    (s.store record).lifecycle = s.lifecycle := rfl

section Sections
variable {α : Type}

def refuse (status : Status) : HostM α := throw (.refused status)

/-- A check of the code's own, with the status it answers. -/
def check (result : Except Status α) : HostM α := lift (result.mapError .refused)

/-- A check whose failure the caller only learns to be uncertain. -/
def certain (result : Except String α) : HostM α := lift (result.mapError fun _ => .refused uncertain)

/-- Lock the journal, unless an uncertain write has poisoned it. -/
def journal (disk : Disk) : HostM Host := do
  let s ← get
  if s.poisoned = true ∨ disk = .refused then do
    modify poison
    refuse ⟨.unavailable, "host journal requires recovery"⟩
  else pure s

def save (disk : Disk) (record : Record) : HostM PUnit :=
  match disk with
  | .written => modify (·.store record)
  | .lost | .refused => do
    modify fun s => { s with record := some record, poisoned := true }
    refuse uncertain
  | .uncertain => do
    modify fun s => (s.store record).poison
    refuse uncertain
  | .crashed true => do
    modify fun s => (s.store record).crash
    throw .crashed
  | .crashed false => do
    modify crash
    throw .crashed

/-- Read the record under the journal mutex. -/
def read (disk : Disk) : HostM Record := do
  let s ← journal disk
  check (okOr s.record uncertain)

/-- Change the record and save the journal in one critical section. -/
def edit (disk : Disk) (change : Record → Except Status (Record × α)) : HostM α := do
  let s ← journal disk
  let record ← check (okOr s.record uncertain)
  let (next, value) ← check (change record)
  save disk next
  pure value

/-- An edit that answers the record it saved. -/
def update (disk : Disk) (change : Record → Except Status Record) : HostM Record :=
  edit disk fun record => (change record).map fun next => (next, next)

/-- A call to the guest or the guardian that the host may not survive. -/
def call (reply : Reply α) : HostM (Option α) :=
  match reply with
  | .received value => pure (some value)
  | .failed => pure none
  | .crashed => do
    modify crash
    throw .crashed

end Sections

def deadline (expires now : ℤ) : Except Status PUnit :=
  ensure (1 ≤ expires - now ∧ expires - now ≤ 300000)
    ⟨.failedPrecondition, "expired or unbounded claim/lease"⟩

def owner (ownership : Option Ownership) (now : ℤ) : HostM Ownership := do
  let s ← get
  check do
    let o ← okOr ownership ⟨.invalidArgument, "ownership required"⟩
    ensure (0 < o.generation ∧ 0 < o.claimRevision) ⟨.invalidArgument, "invalid ownership"⟩
    ensure (o.hostId = s.host ∧ o.supervisorEpoch = s.epoch)
      ⟨.failedPrecondition, "wrong host or supervisor epoch"⟩
    deadline o.claimExpiresUnixMs now
    pure o

def identityMismatch : Status := ⟨.failedPrecondition, "allocation identity mismatch"⟩

/-- What a request meets before it holds the gate. `admission` is what the journal's capacity or
the launch authority has against a record for a new allocation. -/
structure Arrival where
  now : ℤ
  gate : Disk := .written
  admission : Option Status := none
  check : Disk := .written
  deriving DecidableEq, Repr

/-- The revision is validated again under the gate before any action. -/
def gate (o : Ownership) (t : Arrival) : HostM PUnit := do
  let s ← journal t.gate
  match s.record with
  | some record => do
    check (ensure (sameAllocation record.owner o) identityMismatch)
    check record.retirementCheck
  | none =>
    match t.admission with
    | some status => refuse status
    | none => save t.gate (Record.new o)

/-- `BTreeMap::len` -/
def size {V : Type} (map : Map V) : ℕ := map.entries.length

def capacityFull : Status := ⟨.resourceExhausted, "operation fence capacity full"⟩

/-- A missing revision counts as zero, which no valid claim is below. -/
def fenced (o : Ownership) (record : Record) : Except Status Record := do
  ensure (sameAllocation record.owner o) identityMismatch
  record.retirementCheck
  ensure (o.operationId ∈ record.revisions ∨ size record.revisions < 64) capacityFull
  ensure ((record.revisions.lookup o.operationId).getD 0 ≤ o.claimRevision)
    ⟨.failedPrecondition, "stale controller claim"⟩
  pure { record with revisions := record.revisions.insert o.operationId o.claimRevision }

def fence (o : Ownership) (m : Moment) : HostM Record := do
  check (deadline o.claimExpiresUnixMs m.now)
  update m.disk (fenced o)

/-! ### Contracts under an invariant -/

/-- What happens to the memory of a host that can no longer save, or that is gone, is no concern
of the invariant. -/
structure Durable (Inv : Host → Prop) : Prop where
  poison : ∀ s, Inv s → Inv s.poison
  lost : ∀ s record, Inv s → Inv { s with record := some record, poisoned := true }
  crash : ∀ s, Inv s → Inv s.crash

/-- The call keeps the invariant, also where it fails, and takes `pre` to `post`. -/
def Keeps {α : Type} (Inv pre : Host → Prop) (call : HostM α) (post : α → Host → Prop) : Prop :=
  Triple (fun s => Inv s ∧ pre s) call (fun value s => Inv s ∧ post value s) fun _ s => Inv s

namespace Keeps
variable {α β : Type} {Inv pre pre' : Host → Prop} {post post' : α → Host → Prop}
  {next : β → Host → Prop} {body : HostM α} {rest : α → HostM β} {value : α} {status : Status}
  {disk : Disk}

theorem pure (returns : ∀ s, Inv s → pre s → post value s) : Keeps Inv pre (pure value) post :=
  Triple.pure fun s start => ⟨start.1, returns s start.1 start.2⟩

theorem refuse : Keeps Inv pre (refuse status) post :=
  Triple.throw fun _ start => start.1

theorem bind (head : Keeps Inv pre body post) (tail : ∀ a, Keeps Inv (post a) (rest a) next) :
    Keeps Inv pre (body >>= rest) next :=
  Triple.bind head tail

theorem strengthen (keeps : Keeps Inv pre body post) (stronger : ∀ s, Inv s → pre' s → pre s) :
    Keeps Inv pre' body post :=
  Triple.strengthen keeps fun s start => ⟨start.1, stronger s start.1 start.2⟩

theorem returns (keeps : Keeps Inv pre body post) (after : ∀ a s, Inv s → post a s → post' a s) :
    Keeps Inv pre body post' :=
  Triple.post_mono keeps fun a s done => ⟨done.1, after a s done.1 done.2⟩

/-- A fact of every state that the call starts from is a hypothesis of its proof. -/
theorem given {fact : Prop} (known : ∀ s, Inv s → pre s → fact)
    (keeps : fact → Keeps Inv pre body post) : Keeps Inv pre body post :=
  fun s start => keeps (known s start.1 start.2) s start

theorem ite {condition : Prop} [Decidable condition] {other : HostM α}
    (yes : condition → Keeps Inv pre body post) (no : ¬condition → Keeps Inv pre other post) :
    Keeps Inv pre (if condition then body else other) post := by
  by_cases met : condition
  · rw [if_pos met]; exact yes met
  · rw [if_neg met]; exact no met

theorem check {result : Except Status α} :
    Keeps Inv pre (check result) (fun value s => result = .ok value ∧ pre s) := by
  refine Triple.post_mono (Triple.lift fun s _ start _ => start.1) ?_
  rintro value s ⟨passed, start, met⟩
  exact ⟨start, mapError_ok.mp passed, met⟩

theorem certain {result : Except String α} :
    Keeps Inv pre (certain result) (fun value s => result = .ok value ∧ pre s) := by
  refine Triple.post_mono (Triple.lift fun s _ start _ => start.1) ?_
  rintro value s ⟨passed, start, met⟩
  exact ⟨start, mapError_ok.mp passed, met⟩

theorem get : Keeps Inv pre get (fun read s => read = s ∧ pre s) :=
  Triple.get fun _ start => ⟨start.1, rfl, start.2⟩

theorem modify {change : Host → Host} (after : Host → Prop)
    (step : ∀ s, Inv s → pre s → Inv (change s) ∧ after (change s)) :
    Keeps Inv pre (modify change) (fun _ => after) :=
  Triple.modify fun s start => step s start.1 start.2

section
variable (durable : Durable Inv)
include durable

theorem journal :
    Keeps Inv pre (journal disk) (fun read s => read = s ∧ s.poisoned = false ∧ pre s) := by
  refine Triple.bind Keeps.get fun read s start => ?_
  obtain ⟨inv, rfl, met⟩ := start
  split
  next => exact durable.poison _ inv
  next calm =>
    have unpoisoned : read.poisoned = false := by simpa using (not_or.mp calm).1
    exact ⟨inv, rfl, unpoisoned, met⟩

theorem read : Keeps Inv pre (read disk)
    (fun record s => s.record = some record ∧ s.poisoned = false ∧ pre s) := by
  refine bind (journal durable) fun s => (check).returns ?_
  rintro record s inv ⟨found, rfl, unpoisoned, met⟩
  exact ⟨okOr_ok.mp found, unpoisoned, met⟩

theorem save {record : Record} (step : ∀ s, Inv s → pre s → Inv (s.store record)) :
    Keeps Inv pre (save disk record)
      (fun _ s => ∃ before, Inv before ∧ pre before ∧ s = before.store record) := by
  intro s start
  have stored := step s start.1 start.2
  cases disk with
  | written => exact ⟨stored, s, start.1, start.2, rfl⟩
  | lost => exact durable.lost s record start.1
  | uncertain => exact durable.poison _ stored
  | refused => exact durable.lost s record start.1
  | crashed durably =>
    cases durably with
    | true => exact durable.crash _ stored
    | false => exact durable.crash _ start.1

theorem edit {change : Record → Except Status (Record × α)}
    (step : ∀ s record next value, Inv s → pre s → s.poisoned = false → s.record = some record →
      change record = .ok (next, value) → Inv (s.store next) ∧ post value (s.store next)) :
    Keeps Inv pre (edit disk change) post := by
  refine bind (journal durable) fun s => bind check fun record => bind check fun changed => ?_
  obtain ⟨next, value⟩ := changed
  refine bind (save durable ?_) fun _ => pure ?_
  · rintro s inv ⟨passed, found, rfl, unpoisoned, met⟩
    exact (step s record next value inv met unpoisoned (okOr_ok.mp found) passed).1
  · rintro _ _ ⟨s, inv, ⟨passed, found, rfl, unpoisoned, met⟩, rfl⟩
    exact (step s record next value inv met unpoisoned (okOr_ok.mp found) passed).2

theorem update {post : Record → Host → Prop} {change : Record → Except Status Record}
    (step : ∀ s record next, Inv s → pre s → s.poisoned = false → s.record = some record →
      change record = .ok next → Inv (s.store next) ∧ post next (s.store next)) :
    Keeps Inv pre (update disk change) post := by
  refine edit durable fun s record next value inv met unpoisoned found paired => ?_
  obtain ⟨changed, passed, same⟩ := map_ok.mp paired
  obtain ⟨rfl, rfl⟩ := Prod.mk.inj same
  exact step s record changed inv met unpoisoned found passed

theorem call {reply : Reply α} : Keeps Inv pre (call reply) (fun _ => pre) := by
  intro s start
  cases reply with
  | received value => exact start
  | failed => exact start
  | crashed => exact durable.crash s start.1

end
end Keeps

end Host
end HudsonSandbox
