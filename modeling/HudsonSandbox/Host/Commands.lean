import HudsonSandbox.Host.Journal

/-!
# Commands on a host

One dispatch to the guest at most: the intent is saved before it is sent, and every retry
reconciles the retained record. An inspection of an operation that was never seen leaves a
tombstone behind, so that a delayed start cannot follow the answer.
-/

namespace HudsonSandbox.Host
open Checked LiveOutput GuestModel Command History Supervisor Effect

/-- What a command request meets while it holds the gate, in the order it looks. -/
structure CommandTurns where
  check : Disk := .written
  fence : Moment
  /-- The boot that the guardian answers with, if it does. -/
  boot : Option String := none
  remaining : ℤ
  claim : ℤ
  intent : Disk := .written
  dispatch : ℤ
  receipt : Reply Receipt := .failed
  result : Disk := .written
  observed : ℤ

def saveCommand (o : Ownership) (command : CommandRecord) (disk : Disk) : HostM Record :=
  update disk fun record =>
    .ok { record with commands := record.commands.insert o.operationId command }

/-- The operation is no upload's, and the journal has room if it is new. -/
def commandRoom (o : Ownership) (record : Record) : Except Status PUnit := do
  ensure (o.operationId ∉ record.files)
    ⟨.alreadyExists, "operation belongs to a file transfer"⟩
  ensure (o.operationId ∈ record.commands ∨ size record.commands < MAX_COMMANDS)
    ⟨.resourceExhausted, "retained command journal full"⟩

def commandGate (o : Ownership) (t : Arrival) : HostM PUnit := do
  gate o t
  let record ← read t.check
  check (commandRoom o record)

/-- Admission limits come before the revision fence, so that commands cannot consume the slots
reserved for the lifecycle. -/
def commandFence (o : Ownership) (t : CommandTurns) : HostM Record := do
  let record ← read t.check
  check (record.check .commands o.operationId)
  check (commandRoom o record)
  fence o t.fence

/-- The guest that may still know more about the command. -/
def observeClient (record : Record) (command : CommandRecord) (boot : Option String) :
    Option Context :=
  if ¬command.finished ∧ record.stopped = false then
    record.manifest.bind (·.guestClient boot)
  else none

/-- A receipt that this request has not confirmed is withheld. -/
def observed (o : Ownership) (command : CommandRecord) (current : Bool) (now : ℤ) :
    CommandObservation :=
  let observation := command.observation o false now
  if current then observation else { observation with receipt := none }

/-- A failed or missing guest response never authorizes another execute. -/
def observeCommand (o : Ownership) (record : Record) (command : CommandRecord) (t : CommandTurns) :
    HostM CommandObservation :=
  match observeClient record command t.boot with
  | none => pure (observed o command (decide command.finished) t.observed)
  | some _ => do
    match ← call t.receipt with
    | none => pure (observed o command (decide command.finished) t.observed)
    | some receipt => do
      certain (command.validateReceipt o.operationId receipt)
      let confirmed := { command with receipt := some receipt }
      let _ ← saveCommand o confirmed t.result
      pure (observed o confirmed true t.observed)

/-- `inspect_or_cancel` once the operation is fenced. -/
def inspectFenced (o : Ownership) (digest : Digest) (t : CommandTurns) (record : Record) :
    HostM CommandObservation :=
  match record.commands.lookup o.operationId with
  | some command => do
    check (ensure (command.digest = digest) ⟨.alreadyExists, "command digest changed"⟩)
    observeCommand o record command t
  | none => do
    check (ensure (size record.commands < MAX_COMMANDS)
      ⟨.resourceExhausted, "command journal full"⟩)
    -- This epoch has no dispatch intent for the operation, and after the save it never will.
    let command := CommandRecord.fenced digest
    let _ ← saveCommand o command t.intent
    observeCommand o record command t

/-- `cancel` only selects what the guest is asked. -/
def inspectOrCancel (o : Ownership) (digest : Digest) (_cancel : Bool) (t : CommandTurns) :
    HostM CommandObservation := do
  let record ← commandFence o t
  inspectFenced o digest t record

def reserved (record : Record) : ℕ := (record.commands.entries.map (·.2.outputLimit)).sum

def admissible (record : Record) (command : Execute) (now : ℤ) : Prop :=
  record.stopped = false ∧ record.released = false ∧
    (∀ entry ∈ record.commands.entries, entry.2.finished) ∧
    (1 ≤ command.deadlineUnixMs - now ∧ command.deadlineUnixMs - now ≤ MAX_DURATION_MS) ∧
    reserved record + command.outputLimit ≤ MAX_RESERVED_OUTPUT

instance (record : Record) (command : Execute) (now : ℤ) :
    Decidable (admissible record command now) := inferInstanceAs (Decidable (_ ∧ _))

/-- The guest that a new command may be sent to. -/
def executeClient (record : Record) (command : Execute) (t : CommandTurns) : Option Context :=
  if admissible record command t.remaining then record.manifest.bind (·.guestClient t.boot)
  else none

/-- The request leaves the host: whatever the guest answers, it has been sent. -/
def send (operation : OperationId) : HostM PUnit :=
  modify fun s => { s with facts := .executed operation :: s.facts }

section Execute
variable (enc : CommandEncoding)

def dispatch (o : Ownership) (command : Execute) (client : Context) (t : CommandTurns) :
    HostM CommandObservation := do
  check (deadline o.claimExpiresUnixMs t.claim)
  let retained ← certain (CommandRecord.pending enc command client)
  let _ ← saveCommand o retained t.intent
  -- The save may have stalled past the controller's authority: the intent stays uncertain.
  check (deadline o.claimExpiresUnixMs t.dispatch)
  send command.operationId
  match ← call t.receipt with
  | none => pure (retained.observation o false t.observed)
  | some receipt => do
    certain (retained.validateReceipt command.operationId receipt)
    let confirmed := { retained with receipt := some receipt }
    let _ ← saveCommand o confirmed t.result
    pure (confirmed.observation o false t.observed)

/-- `execute_command_sync` once the operation is fenced. -/
def executeFenced (o : Ownership) (command : Execute) (digest : Digest) (t : CommandTurns)
    (record : Record) : HostM CommandObservation :=
  match record.commands.lookup o.operationId with
  | some previous => do
    check (ensure (previous.digest = digest)
      ⟨.alreadyExists, "command retry changed payload"⟩)
    observeCommand o record previous t
  | none => do
    check (ensure (size record.commands < MAX_COMMANDS)
      ⟨.resourceExhausted, "command journal full"⟩)
    match executeClient record command t with
    | none => do
      let fenced := CommandRecord.fenced digest
      let _ ← saveCommand o fenced t.intent
      pure (fenced.observation o false t.observed)
    | some client => dispatch enc o command client t

def executeCommand (o : Ownership) (command : Execute) (digest : Digest) (t : CommandTurns) :
    HostM CommandObservation := do
  let record ← commandFence o t
  executeFenced enc o command digest t record

/-! ### Before the gate -/

def arriveExecute (request : CommandRequest) (t : Arrival) : HostM Waiting := do
  let o ← owner request.ownership t.now
  let command ← check (okOr request.command ⟨.invalidArgument, "command required"⟩)
  check ((command.validate enc).mapError fun _ => ⟨.invalidArgument, "invalid command"⟩)
  check (ensure (command.operationId = o.operationId ∧ command.outputLimit ≤ Command.MAX_OUTPUT)
    ⟨.invalidArgument, "command ownership or output budget mismatch"⟩)
  let digest ← certain (command.digest enc)
  commandGate o t
  pure (.execute o command digest)

end Execute

def arriveInspect (request : CommandInspection) (cancel : Bool) (t : Arrival) : HostM Waiting := do
  let o ← owner request.ownership t.now
  let digest ← check (okOr request.commandDigest ⟨.invalidArgument, "invalid command digest"⟩)
  commandGate o t
  pure (.inspectOrCancel o digest cancel)

end HudsonSandbox.Host
