import HudsonSandbox.Inner.Boot
import HudsonSandbox.Library.Run

/-!
# Runs of a whole host

Requests arrive, each takes its steps in any order with the others, guardians write in their
directories, and the host or its power may fail between any two steps.
-/

namespace HudsonSandbox.Inner
open Checked AllocationAuthority AllocationRetirement Stored Host Run
open LiveOutput hiding Status

inductive Event where
  | request (task : Task) (turn : Turn)
  | fence (request : AllocationRetirement.Request) (retire : Bool) (turn : Turn)
  | forget (request : ForgetRequest) (turn : Turn)
  /-- The permits from one serial on, as the store issued them. -/
  | register (first count : ℕ) (turn : Turn)
  | pin (allocation : AllocationId)
  /-- One thread takes its next step. -/
  | advance (index : ℕ) (turn : Turn)
  /-- A guardian, or a cleanup of the host's own, has written in the allocation's directory. -/
  | guardian (allocation : AllocationId) (runtime : Runtime)
  | crash
  /-- Each file keeps its last rename or loses it. -/
  | powerLoss (journal authority : Bool) (runtime : AllocationId → Bool)
  | start (epoch : ℤ) (accepted : Bool) (first second third : Write)

section
variable (config : Config) (texts : Texts) (issuer : Issuer)

/-- What is checked before the gate is looked up, and the allocation that is asked for. -/
def taskCheck (s : Inner) (task : Task) (turn : Turn) : Except Status AllocationId :=
  match task with
  | .create o request => do
    ensure (request.ownership = some o) ⟨.invalidArgument, "ownership required"⟩
    ownerCheck config s o turn.now
    authorizeCreate texts s o request turn.granted
    pure o.allocationId
  | .inspect o _ | .lease o _ _ | .other o true => do
    ownerCheck config s o turn.now
    pure o.allocationId
  | .other o false => pure o.allocationId
  | .previous o => do
    previousCheck config s o turn.now
    pure o.allocationId
  | .reconcile record => do
    let row ← okOr (s.journal.records.lookup record.owner.allocationId) uncertain
    ensure (JournalFree s.threads ∧ s.poisoned = false ∧ row.record = record ∧ record.released = false ∧
      record.manifest.isSome = true) uncertain
    pure record.owner.allocationId

/-- A create keeps the shared launch lock to its end. -/
def Task.launches (authority : Bool) : Task → Bool
  | .create .. => authority
  | _ => false

def request (s : Inner) (task : Task) (turn : Turn) : Inner :=
  match taskCheck config texts s task turn with
  | .error _ => s
  | .ok allocation =>
    let t : Thread :=
      { allocation, gate := 0, launch := task.launches s.authority.isSome, point := .arriving task }
    s.resume t (.arriving task)

/-- The step of a thread that is off the list. -/
def proceed (s : Inner) (t : Thread) (turn : Turn) : Inner :=
  match t.point with
  | .arriving task => s.arriving config texts t task turn
  | .waiting task => s.resume t (if GateFree s.threads t.gate then .held task else .waiting task)
  | .held task => s.held t task turn
  | .admitting o request => s.admitting config t o request turn
  | .preparing record => s.preparing t record turn
  | .dispatching record => s.dispatching t record turn
  | .spawning record => s.spawning t record turn
  | .awaiting => s
  | .stopping record => s.stopping t record turn
  | .observing record => s.observing t record turn
  | .releasing => s.releasing t turn
  | .editing => s.editing t turn
  | .fencing request minimum retire => s.fencing config texts t request minimum retire turn
  | .draining request retire => s.draining t request retire
  | .ticketing request retire => s.ticketing t request retire turn
  | .acknowledging request retire => s.acknowledging t request retire turn
  | .regating request => s.withRow t.allocation fun row =>
      s.resume { t with gate := row.gate } (.relocking request)
  | .relocking request => if GateFree s.threads t.gate then s.resume t (.surveying request) else s
  | .surveying request => s.surveying config texts t request turn
  | .planning request row plan => s.planning t request row plan turn
  | .unlinking request row saved => s.unlinking t request row saved turn
  | .finishing request row saved => s.finishing t request row saved turn
  | .completing request => s.completing texts t request turn
  | .removing request => s.removing t request turn
  | .syncing request => s.syncing t request
  | .closing request => s.closing texts request turn
  | .checkpointing checkpoint => s.checkpointing checkpoint turn
  | .reading => s.reading t turn

/-- A thread waits while its step needs a mutex that another thread holds. -/
def advance (s : Inner) (index : ℕ) (turn : Turn) : Inner :=
  match s.threads[index]? with
  | none => s
  | some t =>
    let rest := { s with threads := s.threads.eraseIdx index }
    if t.point.sections = true ∧ ¬JournalFree rest.threads then s
    else rest.proceed config texts t turn

/-- A receipt that does not confirm the cleanup is its guardian's own to replace. A directory
without a receipt is only written under the shared launch lock, by a launch that is permitted. -/
def Writable (s : Inner) (allocation : AllocationId) : Prop :=
  match (s.seen allocation).directory.bind (·.receipt) with
  | some cleaned => cleaned = false
  | none => LaunchOpen s.threads ∧ ∀ file ∈ s.authority,
      (file.visible.ledger.activeAllocation allocation).isOk = true

instance (s : Inner) (allocation : AllocationId) : Decidable (s.Writable allocation) :=
  match h : (s.seen allocation).directory.bind (·.receipt) with
  | some cleaned => decidable_of_iff (cleaned = false) (by simp [Writable, h])
  | none => decidable_of_iff (LaunchOpen s.threads ∧ ∀ file ∈ s.authority,
      (file.visible.ledger.activeAllocation allocation).isOk = true) (by simp [Writable, h])

/-- Whoever confirms the cleanup has removed the control group before. -/
def guardian (s : Inner) (allocation : AllocationId) (runtime : Runtime) : Inner :=
  if s.Writable allocation ∧ (runtime.cleaned = true → runtime.cgroup = false) then
    s.setRuntime allocation (.of runtime)
  else s

/-- The process is gone; its files stay as readers see them. -/
def crash (s : Inner) : Inner :=
  { s with up := false, poisoned := false, journal := s.file.visible, threads := [], tickets := [] }

def powerLoss (s : Inner) (journal authority : Bool) (runtime : AllocationId → Bool) : Inner :=
  crash { s with
    file := s.file.recover journal
    authority := s.authority.map (·.recover authority)
    runtime := fun allocation => (s.runtime allocation).recover (runtime allocation) }

def step (s : Inner) : Event → Inner
  | .request task turn => if s.up = true then s.request config texts task turn else s
  | .fence request retire turn =>
    if s.up = true ∧ JournalFree s.threads then s.freeze config texts request retire turn else s
  | .forget request turn =>
    if s.up = true ∧ JournalFree s.threads then s.forget config texts request turn else s
  | .register first count turn =>
    if s.up = true ∧ JournalFree s.threads then s.register config texts issuer first count turn else s
  | .pin allocation =>
    if s.up = true ∧ JournalFree s.threads then s.pin allocation else s
  | .advance index turn => if s.up = true then s.advance config texts index turn else s
  | .guardian allocation runtime => s.guardian allocation runtime
  | .crash => s.crash
  | .powerLoss journal authority runtime => s.powerLoss journal authority runtime
  | .start epoch accepted first second third => s.start config texts epoch accepted first second third

end

/-! ### Provisioning -/

/-- The host whose state directory has been set up, with the files it then has. -/
def provisioned (epoch : ℤ) (authority : Option AuthorityFile) : Inner :=
  let checkpoint : Checkpoint := { epoch, registeredThrough := 0 }
  let journal : Journal :=
    { epoch, launchAuthority := authority.map fun _ => checkpoint, records := ∅ }
  { up := true, poisoned := false, journal, floor := checkpoint, file := .of journal
    authority := authority.map .of, runtime := fun _ => .of { directory := none, cgroup := false }
    tickets := [], threads := [], nextGate := 0, facts := [] }

/-- `AuthorityFile::initialize` -/
def freshAuthority (config : Config) (texts : Texts) (epoch : ℤ) : Except String AuthorityFile := do
  let ledger ← (Authority.new config.host).mapError fun _ => "invalid host"
  AuthorityFile.save texts epoch ledger

def provision (config : Config) (texts : Texts) (epoch : ℤ) : Except String Inner := do
  ensure (0 < epoch) "positive launch epoch required"
  if config.launchPermitsRequired = true then do
    let file ← freshAuthority config texts epoch
    pure (provisioned epoch (some file))
  else pure (provisioned epoch none)

end HudsonSandbox.Inner
