import HudsonSandbox.Host.Fence
import HudsonSandbox.Host.Lifecycle
import HudsonSandbox.Library.Maps
import HudsonSandbox.Library.Stored

/-!
# The journal of a whole host

All allocations of one host, as `host.json` retains them. A row is the record that the modules of
`Host` follow for a single allocation, with what only the host as a whole looks at: the resources
its manifest reserves, the deletion plan of its metadata, and the gate its requests wait for.
-/

namespace HudsonSandbox.Inner
open Checked Supervisor AllocationAuthority Host
open LiveOutput hiding Status

/-! ### Configuration -/

def MAX_RECORDS : ℕ := 1024

/-- Includes guest memory plus the VMM allowance and the disk plus the artifact allowance. -/
structure Capacity where
  vcpu : ℕ
  memoryMib : ℕ
  diskMib : ℕ
  positive : 0 < vcpu ∧ 0 < memoryMib ∧ 0 < diskMib
  words : vcpu < 2 ^ 64 ∧ memoryMib < 2 ^ 64 ∧ diskMib < 2 ^ 64

structure Config where
  host : HostId
  launchPermitsRequired : Bool
  capacity : Capacity

/-! ### Supported guest sizes -/

def MIN_VCPU : ℕ := 1
def MAX_VCPU : ℕ := 4
def MIN_MEMORY_MIB : ℕ := 128
def MAX_MEMORY_MIB : ℕ := 8192
def MIN_DISK_MIB : ℕ := 64
def MAX_DISK_MIB : ℕ := 65536

def Supported (r : Resources) : Prop :=
  (MIN_VCPU ≤ r.vcpu ∧ r.vcpu ≤ MAX_VCPU) ∧
    (MIN_MEMORY_MIB ≤ r.memoryMib ∧ r.memoryMib ≤ MAX_MEMORY_MIB) ∧
    MIN_DISK_MIB ≤ r.diskMib ∧ r.diskMib ≤ MAX_DISK_MIB

instance (r : Resources) : Decidable (Supported r) := inferInstanceAs (Decidable (_ ∧ _))

/-! ### Rows -/

inductive Metadata where
  | absent
  /-- The receipt, the manifest and the lifecycle lock, and the abandoned staging files. -/
  | stopped (staged : List OperationId)
  deriving DecidableEq, Repr

structure Plan where
  intentSha256 : AllocationRetirement.Digest
  metadata : Metadata
  deriving DecidableEq

structure Saved where
  plan : Plan
  removed : Bool
  deriving DecidableEq

/-- `start` is what the manifest reserves; a gate is named by a number that is used once. -/
structure Row where
  record : Record
  start : Option Resources
  metadataRetirement : Option Saved
  gate : ℕ
  deriving DecidableEq

structure Checkpoint where
  epoch : ℤ
  registeredThrough : ℕ
  deriving DecidableEq, Repr

structure Journal where
  epoch : ℤ
  launchAuthority : Option Checkpoint
  records : AList fun _ : AllocationId => Row
  deriving DecidableEq

namespace Row

def new (o : Ownership) (gate : ℕ) : Row :=
  { record := Record.new o, start := none, metadataRetirement := none, gate }

/-- What retirement freezes for an allocation that never had a row. -/
def empty (request : AllocationRetirement.Request) (gate : ℕ) : Row :=
  { record := Record.empty request, start := none, metadataRetirement := none, gate }

def stop (row : Row) : Row := { row with record := { row.record with stopped := true } }

def release (row : Row) : Row :=
  { row with record := { row.record with stopped := true, released := true } }

def dispatch (row : Row) : Row := { row with record := { row.record with dispatched := true } }

/-- The row has a manifest: the allocation was admitted. -/
def Created (row : Row) : Prop := row.record.manifest.isSome = true

instance (row : Row) : Decidable row.Created := inferInstanceAs (Decidable (_ = true))

def Unreleased (row : Row) : Prop := row.Created ∧ row.record.released = false

instance (row : Row) : Decidable row.Unreleased := inferInstanceAs (Decidable (_ ∧ _))

/-- Another request has changed only what admission, release and retirement do not read. -/
structure Unrelated (before after : Record) : Prop where
  owner : after.owner = before.owner
  retirement : after.retirement = before.retirement
  create : after.create = before.create
  manifest : after.manifest = before.manifest
  dispatched : after.dispatched = before.dispatched
  stopped : after.stopped = before.stopped
  released : after.released = before.released

instance (before after : Record) : Decidable (Unrelated before after) :=
  decidable_of_iff (after.owner = before.owner ∧ after.retirement = before.retirement ∧
      after.create = before.create ∧ after.manifest = before.manifest ∧
      after.dispatched = before.dispatched ∧ after.stopped = before.stopped ∧
      after.released = before.released)
    ⟨fun ⟨a, b, c, d, e, f, g⟩ => ⟨a, b, c, d, e, f, g⟩,
      fun ⟨a, b, c, d, e, f, g⟩ => ⟨a, b, c, d, e, f, g⟩⟩

end Row

/-! ### Admission -/

/-- `u64::saturating_add` -/
def saturatingAdd (n k : ℕ) : ℕ := min (n + k) (2 ^ 64 - 1)

/-- `u64` addition as the release build computes it. -/
def wrappingAdd (n k : ℕ) : ℕ := (n + k) % 2 ^ 64

/-- What the unreleased manifests hold of the configured capacity. -/
structure Reserved where
  cpu : ℕ := 0
  memory : ℕ := 0
  disk : ℕ := 0
  deriving DecidableEq, Repr

def Reserved.add (self : Reserved) (start : Resources) : Reserved :=
  { cpu := saturatingAdd self.cpu start.vcpu
    memory := saturatingAdd self.memory (wrappingAdd start.memoryMib 128)
    disk := saturatingAdd self.disk (wrappingAdd start.diskMib 401) }

/-- Another record of the sandbox that admission cannot follow. -/
def Row.Blocks (row : Row) (o : Ownership) : Prop :=
  row.record.owner.sandboxId = o.sandboxId ∧
    (row.record.owner.projectId ≠ o.projectId ∨ o.generation ≤ row.record.owner.generation ∨
      row.Unreleased ∨ row.record.stopped = false)

instance (row : Row) (o : Ownership) : Decidable (row.Blocks o) :=
  inferInstanceAs (Decidable (_ ∧ _))

/-- The loop over the records: no record of the sandbox may block, and every unreleased manifest
counts. -/
def survey (o : Ownership) : Reserved → List (Σ _ : AllocationId, Row) → Except Status Reserved
  | sum, [] => .ok sum
  | sum, ⟨id, row⟩ :: rest => do
    ensure (¬(id ≠ o.allocationId ∧ row.Blocks o))
      ⟨.failedPrecondition, "previous sandbox generation not released"⟩
    match row.start with
    | some start => survey o (if row.record.released = true then sum else sum.add start) rest
    | none => survey o sum rest

def Fits (capacity : Capacity) (sum : Reserved) (start : Resources) : Prop :=
  start.vcpu ≤ capacity.vcpu - sum.cpu ∧
    wrappingAdd start.memoryMib 128 ≤ capacity.memoryMib - sum.memory ∧
    wrappingAdd start.diskMib 401 ≤ capacity.diskMib - sum.disk

instance (capacity : Capacity) (sum : Reserved) (start : Resources) :
    Decidable (Fits capacity sum start) := inferInstanceAs (Decidable (_ ∧ _))

/-- `manifest`: `refusal` is what the images, the capabilities and the deadline have against the
request. -/
def manifestStart (request : CreateRequest) (refusal : Option Status) : Except Status Resources := do
  let start ← okOr request.resources ⟨.invalidArgument, "resources required"⟩
  ensure (Supported start) ⟨.invalidArgument, "resources outside real VM envelope"⟩
  match refusal with
  | some status => .error status
  | none => pure start

namespace Journal

/-- Change a record that must be there. -/
def edit (self : Journal) (id : AllocationId) (change : Row → Except Status Row) :
    Except Status (Row × Journal) := do
  let row ← okOr (self.records.lookup id) uncertain
  let next ← change row
  pure (next, { self with records := self.records.insert id next })

def admitted (self : Journal) (capacity : Capacity) (o : Ownership) (request : CreateRequest)
    (start : Resources) : Except Status (Row × Journal) := do
  let sum ← survey o {} self.records.entries
  ensure (Fits capacity sum start) ⟨.resourceExhausted, "host capacity reserved"⟩
  self.edit o.allocationId fun row =>
    .ok { row with
      record := { row.record with create := some request, manifest := some (manifest o request) }
      start := some start }

/-- What starting a host does to the records it retained. -/
def stopAll (self : Journal) (epoch : ℤ) : Journal :=
  { self with epoch, records := Maps.mapValues Row.stop self.records }

end Journal
end HudsonSandbox.Inner
