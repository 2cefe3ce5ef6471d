import HudsonSandbox.Library.Ledger
import HudsonSandbox.Library.Run
import HudsonSandbox.Library.Search
import HudsonSandbox.Protocol.AllocationRetirement

/-!
# Allocation authority

A bounded table of launch permits below a high-water mark. Serials are registered in contiguous
batches; a completed owner may be forgotten, and the gap it leaves below the mark is closed for
good. `step_ledger` shows that the table is a one-way ledger of serials.
-/

namespace HudsonSandbox.AllocationAuthority
open Checked Search AllocationRetirement Ledger

inductive State where
  | active
  | fenced (retirement : OperationId)
  | complete (retirement : OperationId) (intentSha256 : Digest)
  deriving DecidableEq

structure Entry where
  permit : Permit
  state : State
  deriving DecidableEq

/-- The saved form is the whole value: `Authority` wraps `Saved` and adds nothing. -/
structure Authority where
  version : ℕ
  host : HostId
  through : ℕ
  entries : List Entry
  deriving DecidableEq

namespace Authority

def new (host : HostId) : Except Error Authority := do
  validUuid host.uuid
  pure { version := 1, host, through := 0, entries := [] }

/-- The three sets that `decode` fills while it walks the entries. -/
structure Seen where
  previous : ℕ := 0
  allocations : List AllocationId := []
  operations : List OperationId := []
  generations : List (SandboxId × Int) := []

def State.validRetirement : State → Except Error Unit
  | .active => .ok ()
  | .fenced retirement | .complete retirement _ => validUuid retirement.uuid

def checkEntries (host : HostId) (through : ℕ) : Seen → List Entry → Except Error Unit
  | _, [] => .ok ()
  | seen, e :: rest => do
    e.permit.validate
    ensure (e.permit.host = host) .ownership
    ensure (¬(e.permit.serial ≤ seen.previous ∨ through < e.permit.serial ∨
      e.permit.allocation ∈ seen.allocations ∨ e.permit.createOperation ∈ seen.operations ∨
      (e.permit.sandbox, e.permit.generation) ∈ seen.generations)) .invalid
    State.validRetirement e.state
    checkEntries host through
      { previous := e.permit.serial
        allocations := e.permit.allocation :: seen.allocations
        operations := e.permit.createOperation :: seen.operations
        generations := (e.permit.sandbox, e.permit.generation) :: seen.generations } rest

section Storage
variable (json : Codec Authority (List UInt8))

def encode (self : Authority) : Except Error (List UInt8) := do
  let bytes ← okOr (json.encode self) .invalid
  ensure (bytes.length ≤ AllocationAuthority.MAX_BYTES) .capacity
  pure bytes

def decode (bytes : List UInt8) (host : HostId) (minimumThrough : ℕ) :
    Except Error Authority := do
  ensure (bytes.length ≤ AllocationAuthority.MAX_BYTES) .capacity
  let saved ← okOr (json.decode bytes) .invalid
  validUuid host.uuid
  ensure (¬(saved.version ≠ 1 ∨ MAX_SERIAL < saved.through ∨ saved.through < minimumThrough ∨
    MAX_ENTRIES < saved.entries.length)) .invalid
  ensure (saved.host = host) .ownership
  checkEntries host saved.through {} saved.entries
  pure saved

end Storage

/-- `binary_search_by_key` over the serials, then the whole permit is compared. -/
def index (self : Authority) (permit : Permit) : Except Error (Fin self.entries.length) := do
  permit.validate
  ensure (permit.host = self.host) .ownership
  match binarySearchByKey self.entries (·.permit.serial) permit.serial with
  | some i => if self.entries[i].permit = permit then .ok i else .error .ownership
  | none => if permit.serial ≤ self.through then .error .closed else .error .unregistered

def entry (self : Authority) (permit : Permit) : Except Error Entry := do
  let i ← self.index permit
  pure self.entries[i]

def state (self : Authority) (permit : Permit) : Except Error State := do
  let entry ← self.entry permit
  pure entry.state

def activeAllocation (self : Authority) (allocation : AllocationId) : Except Error Permit := do
  validUuid allocation.uuid
  let entry ← okOr (self.entries.find? fun entry => entry.permit.allocation = allocation) .ownership
  ensure (entry.state = .active) .conflict
  pure entry.permit

def authorize (self : Authority) (permit : Permit) : Except Error Unit := do
  match ← self.state permit with
  | .active => pure ()
  | _ => throw .conflict

def setState (self : Authority) (i : Fin self.entries.length) (state : State) : Authority :=
  { self with entries := self.entries.set i { self.entries[i] with state } }

/-- The loop over the batch: each permit is valid, of this host, and one past the one before. -/
def checkBatch (host : HostId) : Option ℕ → List Permit → Except Error Unit
  | _, [] => .ok ()
  | previous, p :: rest => do
    p.validate
    ensure (p.host = host) .ownership
    ensure (¬previous.any fun n => checkedAdd 64 n 1 ≠ some p.serial) .registrationOrder
    checkBatch host (some p.serial) rest

def retainAll (self : Authority) : List Permit → Except Error Unit
  | [] => .ok ()
  | p :: rest => do
    let _ ← self.entry p
    retainAll self rest

/-- One turn of the loop that fills the proposed state. -/
def push (next : Authority) (p : Permit) : Authority :=
  { next with entries := next.entries ++ [{ permit := p, state := .active }], through := p.serial }

section Transitions
variable (json : Codec Authority (List UInt8)) (intents : Codec Intent (List UInt8))
  (sha256 : List UInt8 → Digest)

/-- All of `register` up to the assignment: `none` is the harmless retry that assigns nothing. -/
def proposed (self : Authority) (permits : List Permit) : Except Error (Option Authority) := do
  ensure (¬(permits.isEmpty ∨ MAX_BATCH < permits.length)) .invalid
  checkBatch self.host none permits
  match permits with
  | [] => throw .invalid
  | first :: _ =>
    if first.serial ≤ self.through then
      self.retainAll permits
      pure none
    else
      ensure (checkedAdd 64 self.through 1 = some first.serial) .registrationOrder
      ensure (self.entries.length + permits.length ≤ MAX_ENTRIES) .capacity
      let next := permits.foldl push self
      let bytes ← next.encode json
      let _ ← decode json bytes self.host self.through
      pure (some next)

def register (self : Authority) (permits : List Permit) : Authority × Except Error Unit :=
  match self.proposed json permits with
  | .error e => (self, .error e)
  | .ok none => (self, .ok ())
  | .ok (some next) => (next, .ok ())

def fence (self : Authority) (permit : Permit) (retirement : OperationId) :
    Authority × Except Error Unit :=
  match validUuid retirement.uuid with
  | .error e => (self, .error e)
  | .ok () =>
    match self.index permit with
    | .error e => (self, .error e)
    | .ok i =>
      match self.entries[i].state with
      | .active => (self.setState i (.fenced retirement), .ok ())
      | .fenced r | .complete r _ =>
        if r = retirement then (self, .ok ()) else (self, .error .conflict)

def completionState (intent : Intent) : Except Error State := do
  let intentSha256 ← (intent.digest intents sha256).mapError fun _ => .invalid
  ensure (intent.simulated = false) .invalid
  pure (.complete intent.retirement intentSha256)

def complete (self : Authority) (intent : Intent) : Authority × Except Error Unit :=
  match completionState intents sha256 intent with
  | .error e => (self, .error e)
  | .ok complete =>
    match self.index intent.permit with
    | .error e => (self, .error e)
    | .ok i =>
      if self.entries[i].state = .fenced intent.retirement then
        (self.setState i complete, .ok ())
      else if self.entries[i].state = complete then (self, .ok ())
      else (self, .error .conflict)

def completed (self : Authority) (intent : Intent) : Except Error Unit := do
  let expected ← completionState intents sha256 intent
  let state ← self.state intent.permit
  ensure (state = expected) .conflict

def forget (self : Authority) (intent : Intent) : Authority × Except Error Unit :=
  match self.completed intents sha256 intent with
  | .error e => (self, .error e)
  | .ok () =>
    match self.index intent.permit with
    | .error e => (self, .error e)
    | .ok i => ({ self with entries := self.entries.eraseIdx i }, .ok ())

/-- Writing the table out and reading it back as a restarted process does. -/
def restart (self : Authority) (host : HostId) (minimumThrough : ℕ) :
    Authority × Except Error Unit :=
  match self.encode json with
  | .error e => (self, .error e)
  | .ok bytes =>
    match decode json bytes host minimumThrough with
    | .error e => (self, .error e)
    | .ok restored => (restored, .ok ())

inductive Request where
  | register (permits : List Permit)
  | fence (permit : Permit) (retirement : OperationId)
  | complete (intent : Intent)
  | forget (intent : Intent)
  | restart (host : HostId) (minimumThrough : ℕ)

def apply (self : Authority) : Request → Authority × Except Error Unit
  | .register permits => self.register json permits
  | .fence permit retirement => self.fence permit retirement
  | .complete intent => self.complete intents sha256 intent
  | .forget intent => self.forget intents sha256 intent
  | .restart host minimumThrough => self.restart json host minimumThrough

/-- The serial a request takes out of the active stage. -/
def Request.retires : Request → Option ℕ
  | .fence permit _ => some permit.serial
  | .complete intent | .forget intent => some intent.permit.serial
  | .register _ | .restart _ _ => none

def step (self : Authority) (request : Request) : Authority :=
  (self.apply json intents sha256 request).1

end Transitions

end Authority
end HudsonSandbox.AllocationAuthority
