import HudsonSandbox.Host.Journal

/-!
# Archiving a command's output

The ticket is saved before any byte is collected, the plans before anything is uploaded. The
bytes move without the gate; each save checks the retained command again.
-/

namespace HudsonSandbox.Host
open Checked LiveOutput GuestModel Command History Supervisor Output Effect

/-- The receipt is the final one of exactly the ticket's operation and boot. -/
def validateReceipt (ticket : OutputTicket) (receipt : Receipt) : Except Status Unit := do
  (receipt.validate).mapError fun _ => ⟨.failedPrecondition, "invalid retained receipt"⟩
  ensure (receipt.operationId = ticket.owner.operationId ∧
    receipt.context.allocationId = ticket.owner.allocationId ∧
    receipt.context.generation = ticket.owner.generation ∧
    receipt.context.bootId = ticket.owner.bootId ∧ receipt.outputLimit = ticket.outputLimit ∧
    receipt.cleanupConfirmed = true ∧ receipt.state.known)
    ⟨.failedPrecondition, "output requires the original final receipt"⟩

def agrees (plan : OutputPlan) (output : GuestModel.Output) : Prop :=
  plan.size = output.stored ∧ plan.seen = output.seen ∧ plan.truncated = output.truncated

instance (plan : OutputPlan) (output : GuestModel.Output) : Decidable (agrees plan output) :=
  inferInstanceAs (Decidable (_ ∧ _))

def validatePlans (ticket : OutputTicket) (plans : OutputPlans) (receipt : Receipt) :
    Except Status Unit := do
  validateReceipt ticket receipt
  (ticket.validatePlans plans).mapError fun _ => ⟨.failedPrecondition, "saved output plan changed"⟩
  ensure (agrees plans.stdout receipt.stdout ∧ agrees plans.stderr receipt.stderr)
    ⟨.failedPrecondition, "output statistics changed"⟩

/-- A ticket or plans that do not parse are `none`. -/
def decode (request : OutputRequest) (now : ℤ) :
    Except Status (OutputTicket × Option OutputPlans) := do
  ensure (0 < request.publicationRevision ∧ 1 ≤ request.claimExpiresUnixMs - now ∧
    request.claimExpiresUnixMs - now ≤ 300000)
    ⟨.invalidArgument, "invalid publication claim or metadata bounds"⟩
  let ticket ← okOr request.ticket ⟨.invalidArgument, "invalid output ticket"⟩
  (ticket.validate).mapError fun _ => ⟨.invalidArgument, "invalid output ticket"⟩
  ensure (ticket.createdUnixMs ≤ now ∧ now < ticket.expiresUnixMs)
    ⟨.failedPrecondition, "output retention is not current"⟩
  match request.plans with
  | none => pure (ticket, none)
  | some plans => do
    (ticket.validatePlans plans).mapError fun _ =>
      ⟨.invalidArgument, "output plans do not match ticket"⟩
    pure (ticket, some plans)

def validateOwner (o : Ownership) (ticket : OutputTicket) : Except Status Unit :=
  ensure (o.hostId = ticket.owner.hostId ∧ o.projectId = ticket.owner.projectId ∧
    o.sandboxId = ticket.owner.sandboxId ∧ o.allocationId = ticket.owner.allocationId ∧
    o.generation = ticket.owner.generation ∧ o.supervisorEpoch = ticket.owner.hostEpoch)
    ⟨.failedPrecondition, "archive allocation ownership changed"⟩

/-- The retained command that the ticket archives, and its final receipt. -/
def archivedReceipt (ticket : OutputTicket) (record : Record) : Except Status Receipt := do
  validateOwner record.owner ticket
  record.check .commands ticket.owner.operationId
  let command ← okOr (record.commands.lookup ticket.owner.operationId)
    ⟨.notFound, "command history missing"⟩
  let receipt ← okOr command.receipt ⟨.failedPrecondition, "final receipt missing"⟩
  (command.validateReceipt ticket.owner.operationId receipt).mapError fun _ => uncertain
  pure receipt

/-- A retry names the same ticket and plans under a revision that is not older. -/
def sameArchive (old : Option ArchiveRecord) (ticket : OutputTicket) (plans : Option OutputPlans)
    (revision : ℤ) : Except Status Unit :=
  match old with
  | some old => ensure (old.ticket = ticket ∧ old.revision ≤ revision ∧
      ∀ p ∈ plans, old.plans = some p)
      ⟨.failedPrecondition, "publication ticket, plan or revision changed"⟩
  | none => ensure (plans = none) ⟨.failedPrecondition, "output must be prepared first"⟩

def outputPrepared (ticket : OutputTicket) (plans : Option OutputPlans) (revision : ℤ)
    (record : Record) : Except Status Record := do
  let receipt ← archivedReceipt ticket record
  validateReceipt ticket receipt
  match plans with
  | some p => validatePlans ticket p receipt
  | none => pure ()
  let old := record.archives.lookup ticket.owner.operationId
  sameArchive old ticket plans revision
  pure { record with
         archives := record.archives.insert ticket.owner.operationId
           { ticket, plans := old.bind (·.plans), revision } }

structure OutputTurns where
  record : Moment
  settled : ℤ

/-- `output_setup`, up to the point where it gives the gate back. -/
def outputSetup (request : OutputRequest) (t : OutputTurns) : HostM Record := do
  let (ticket, plans) ← check (decode request t.record.now)
  let record ← update t.record.disk (outputPrepared ticket plans request.publicationRevision)
  let _ ← check (decode request t.settled)
  pure record

def outputPlanned (ticket : OutputTicket) (plans : OutputPlans) (revision : ℤ) (record : Record) :
    Except Status Record := do
  validateOwner record.owner ticket
  record.check .commands ticket.owner.operationId
  let receipt ← okOr ((record.commands.lookup ticket.owner.operationId).bind (·.receipt)) uncertain
  validatePlans ticket plans receipt
  let saved ← okOr (record.archives.lookup ticket.owner.operationId) uncertain
  ensure (saved.ticket = ticket ∧ saved.revision = revision ∧ ∀ p ∈ saved.plans, p = plans)
    ⟨.failedPrecondition, "publication ownership changed"⟩
  pure { record with
         archives := record.archives.insert ticket.owner.operationId
           { saved with plans := some plans } }

def outputFinish (request : OutputRequest) (plans : OutputPlans) (t : OutputTurns) :
    HostM Record := do
  let (ticket, _) ← check (decode request t.record.now)
  let record ← update t.record.disk (outputPlanned ticket plans request.publicationRevision)
  let _ ← check (decode request t.settled)
  pure record

/-! ### Before the gate -/

/-- `storage` says whether the host has an artifact store. -/
def arriveOutput (request : OutputRequest) (plans : Option OutputPlans) (storage : Bool)
    (t : Arrival) : HostM Waiting := do
  let (ticket, _) ← check (decode request t.now)
  check (ensure (storage = true) ⟨.failedPrecondition, "output storage is not configured"⟩)
  let s ← journal t.check
  check (ensure (ticket.owner.hostId = s.host) ⟨.failedPrecondition, "wrong output host"⟩)
  let _ ← check (okOr s.record ⟨.notFound, "allocation history missing"⟩)
  match plans with
  | none => pure (.prepareOutput request)
  | some plans => pure (.finishOutput request plans)

end HudsonSandbox.Host
