import HudsonSandbox.Protocol.OutputRetirement
import HudsonSandbox.Store.Stream

/-!
# Output publication

The columns of an execute row that carry its final output, and the fenced transactions that
prepare, plan and publish it. None of them changes the outcome of the command. A transaction has
one time, the one at which its last statement checks the claim again.
-/

namespace HudsonSandbox.Store
open Checked GuestModel Command LiveOutput Output

/-- Kept in place of a compacted payload. -/
structure CommandSummary where
  version : ℕ
  digest : Digest
  deadlineUnixMs : ℤ
  outputLimit : ℕ
  deriving DecidableEq

/-- All known upload authority for one operation. -/
structure CleanupManifest where
  version : ℕ
  ticket : OutputTicket
  plans : Option OutputPlans
  references : Option OutputRefs
  simulated : Bool
  deriving DecidableEq

inductive CleanupCompletion where
  | noUploadsAuthorized
  | retired (stdout stderr : OutputRetirement)
  deriving DecidableEq

/-- The `output_cleanup` row of an operation. -/
structure OutputInventory where
  claimRevision : ℤ
  leaseExpiresAt : Option Time
  nextRetryAt : Option Time
  manifest : Option CleanupManifest
  eligibleAt : Option Time
  completedAt : Option Time
  receipt : Option CleanupCompletion
  deriving DecidableEq

/-- An execute row with the columns of its output, its retention and its cleanup. -/
structure CommandRow extends ExecuteRow where
  outputClaimRevision : ℤ
  outputLeaseExpiresAt : Option Time
  outputNextRetryAt : Option Time
  outputTicket : Option OutputTicket
  outputPlan : Option OutputPlans
  outputRefs : List OutputRef
  payloadCompactedAt : Option Time
  commandSummary : Option CommandSummary
  payloadCompactionNextAt : Option Time
  cleanup : Option OutputInventory

/-- A command as it was admitted: nothing was collected, kept or compacted. -/
def CommandRow.admitted (row : ExecuteRow) : CommandRow :=
  { toExecuteRow := row, outputClaimRevision := 0, outputLeaseExpiresAt := none,
    outputNextRetryAt := none, outputTicket := none, outputPlan := none, outputRefs := [],
    payloadCompactedAt := none, commandSummary := none, payloadCompactionNextAt := none,
    cleanup := none }

/-- The payload `'{}'`: no command parses from it, and none validates from this one. -/
def CommandInput.erased : CommandInput :=
  { argv := [], env := [], cwd := "", deadlineUnixMs := 0, outputLimit := 0,
    expectedGeneration := none }

section Evidence
variable (enc : CommandEncoding)

def CommandSummary.fromInput (input : CommandInput) (id : OperationId) :
    Except OutputError CommandSummary := do
  (input.validate enc).mapError fun _ => .corrupt
  pure { version := 1, digest := enc.digest (input.forOperation id),
         deadlineUnixMs := input.deadlineUnixMs, outputLimit := input.outputLimit }

/-- `command_summary` -/
def CommandRow.summary (row : CommandRow) : Except OutputError CommandSummary :=
  if row.payloadCompactedAt ≠ none then do
    let summary ← okOr row.commandSummary .corrupt
    ensure (summary.version = 1 ∧ 0 < summary.deadlineUnixMs ∧
      summary.outputLimit ≤ Command.MAX_OUTPUT ∧ row.op.payload = CommandInput.erased) .corrupt
    pure summary
  else CommandSummary.fromInput enc row.op.payload row.op.id

def CommandRow.executionEvidence (row : CommandRow) : Except OutputError StreamEvidence := do
  let op := row.op
  let allocation ← okOr op.executionAllocationId .corrupt
  ensure (row.allocation.id = allocation ∧ row.allocation.projectId = op.projectId ∧
    row.allocation.sandboxId = op.sandboxId) .corrupt
  let command ← row.summary enc
  (validateIntent op (row.owner 0 0) command.digest).mapError fun _ => .corrupt
  let intent ← okOr op.attemptReceipts[0]? .corrupt
  let observed ← okOr op.attemptReceipts[1]? .corrupt
  ensure (op.attemptReceipts.length = 2 ∧ observed.phase = .commandObserved ∧
    SameScope observed.owner intent.owner) .corrupt
  let simulated ← okOr observed.simulated .corrupt
  let receipt ← okOr observed.guestReceipt .corrupt
  receipt.validate.mapError fun _ => .corrupt
  ensure (op.kind = .execute ∧ receipt.operationId = op.id ∧
    receipt.context.allocationId = allocation ∧
    receipt.context.generation = row.allocation.generation ∧ receipt.digest = command.digest ∧
    receipt.outputLimit = command.outputLimit ∧
    receipt.deadlineUnixMs = command.deadlineUnixMs) .corrupt
  pure { owner := row.outputOwner receipt, receipt, simulated }

/-- The outcome that a final receipt stands for. -/
def finalOutcome (receipt : Receipt) : Option (Status × ExecutePhase) :=
  match receipt.state with
  | .exited => some (if receipt.exitCode = some 0 then .succeeded else .failed, .exited)
  | .timedOut => some (.failed, .timedOut)
  | .cancelled => some (.cancelled, .cancelled)
  | _ => none

/-- `output::evidence` -/
def CommandRow.evidence (row : CommandRow) : Except OutputError StreamEvidence := do
  let e ← row.executionEvidence enc
  let final ← okOr (finalOutcome e.receipt) .corrupt
  ensure (row.op.status = final.1 ∧ row.op.phase = final.2 ∧ row.op.completedAt ≠ none) .corrupt
  pure e

def CapturedAs (plan : OutputPlan) (stats : GuestModel.Output) : Prop :=
  plan.size = stats.stored ∧ plan.seen = stats.seen ∧ plan.truncated = stats.truncated

instance (plan : OutputPlan) (stats : GuestModel.Output) : Decidable (CapturedAs plan stats) :=
  inferInstanceAs (Decidable (_ ∧ _))

def validatePlans (ticket : OutputTicket) (plans : OutputPlans) (e : StreamEvidence) :
    Except OutputError Unit := do
  (ticket.validatePlans plans).mapError fun _ => .badEvidence
  ensure (CapturedAs plans.stdout e.receipt.stdout ∧ CapturedAs plans.stderr e.receipt.stderr)
    .badEvidence

structure OutputWork where
  ticket : OutputTicket
  plans : Option OutputPlans
  receipt : Receipt
  simulated : Bool

def CommandRow.saved (row : CommandRow) (e : StreamEvidence) : Except OutputError (Option OutputWork) :=
  match row.outputTicket with
  | none => pure none
  | some ticket => do
    ticket.validate.mapError fun _ => .corrupt
    ensure (ticket.owner = e.owner ∧ ticket.outputLimit = e.receipt.outputLimit ∧
      some ticket.expiresUnixMs = row.op.outputExpiresAt.map ms) .corrupt
    match row.outputPlan with
    | none => pure ()
    | some plans => (validatePlans ticket plans e).mapError fun _ => .corrupt
    pure (some { ticket, plans := row.outputPlan, receipt := e.receipt, simulated := e.simulated })

/-! ### Claims on the output -/

structure OutputClaim where
  operationId : OperationId
  revision : ℤ
  deriving DecidableEq, Repr

def OutputStatus.Open (status : OutputStatus) : Prop := status = .pending ∨ status = .uploading

instance (status : OutputStatus) : Decidable status.Open := inferInstanceAs (Decidable (_ ∨ _))

def CommandRow.OutputFenced (row : CommandRow) (claim : OutputClaim) (now : Time) : Prop :=
  row.op.id = claim.operationId ∧ row.outputClaimRevision = claim.revision ∧
    Pending row.outputLeaseExpiresAt now ∧ row.op.outputStatus.Open

instance (row : CommandRow) (claim : OutputClaim) (now : Time) :
    Decidable (row.OutputFenced claim now) := inferInstanceAs (Decidable (_ ∧ _))

/-- `claimed`, and the same fence again when the transaction commits. -/
def CommandRow.claimed (row : CommandRow) (claim : OutputClaim) (projectDeleting : Bool)
    (now : Time) : Except OutputError Unit := do
  ensure (row.OutputFenced claim now) .lostClaim
  ensure (projectDeleting = false) .projectDeleting

def claimOutput (row : CommandRow) (lease : ℤ) (now : Time) : Except OutputError CommandRow := do
  ensure (1 ≤ lease ∧ lease ≤ 300) .invalidPolicy
  ensure (row.op.outputStatus.Open ∧ Elapsed row.outputLeaseExpiresAt now ∧
    Elapsed row.outputNextRetryAt now) .lostClaim
  pure
    { row with
      outputClaimRevision := row.outputClaimRevision + 1
      outputLeaseExpiresAt := some (now + seconds lease)
      outputNextRetryAt := none }

def renewOutputClaim (row : CommandRow) (claim : OutputClaim) (lease : ℤ) (now : Time) :
    Except OutputError CommandRow := do
  ensure (1 ≤ lease ∧ lease ≤ 300) .invalidPolicy
  ensure (row.OutputFenced claim now) .lostClaim
  pure { row with outputLeaseExpiresAt := some (now + seconds lease) }

def deferOutput (row : CommandRow) (claim : OutputClaim) (delay : ℤ) (now : Time) :
    Except OutputError CommandRow := do
  ensure (1 ≤ delay ∧ delay ≤ 3600) .invalidPolicy
  ensure (row.OutputFenced claim now) .lostClaim
  pure { row with outputLeaseExpiresAt := none, outputNextRetryAt := some (now + seconds delay) }

/-! ### Collecting -/

/-- A new ticket: its retention starts at completion and never outlasts the response. -/
def newTicket (row : CommandRow) (e : StreamEvidence) (retention grace : ℤ) (attempt : OperationId)
    (completed : Time) : OutputTicket :=
  let created := ms completed
  let kept := created + retention * 1000
  -- a response that expired before execution finished grants no new window
  let expires := max (((row.op.responseExpiresAt.map ms).map (min kept)).getD kept) (created + 1)
  { version := 1, owner := e.owner, uploadAttempt := attempt, outputLimit := e.receipt.outputLimit,
    createdUnixMs := created, expiresUnixMs := expires
    deleteAfterUnixMs := expires + grace * 1000 }

def preparedWork (row : CommandRow) (e : StreamEvidence) (retention grace : ℤ)
    (attempt : OperationId) : Except OutputError OutputWork := do
  match ← row.saved e with
  | some work => pure work
  | none =>
    let completed ← okOr row.op.completedAt .query
    pure { ticket := newTicket row e retention grace attempt completed, plans := none,
           receipt := e.receipt, simulated := e.simulated }

/-- The work goes on, or its retention was over and the row says so; both are committed. -/
def prepareOutput (row : CommandRow) (claim : OutputClaim) (retention grace : ℤ)
    (attempt : OperationId) (projectDeleting allowSimulated : Bool) (now : Time) :
    Except OutputError (CommandRow × Option OutputWork) := do
  ensure ((1 ≤ retention ∧ retention ≤ 30 * 24 * 3600) ∧ 0 ≤ grace ∧ grace ≤ 7 * 24 * 3600)
    .invalidPolicy
  row.claimed claim projectDeleting now
  let e ← row.evidence enc
  ensure (e.simulated = true → allowSimulated = true) .simulationDenied
  let work ← preparedWork row e retention grace attempt
  work.ticket.validate.mapError fun _ => .badEvidence
  let expiry := work.ticket.expiresUnixMs * 1000
  let kept : CommandRow :=
    { row with
      outputTicket := some work.ticket
      op := { row.op with outputStatus := .uploading, outputExpiresAt := some expiry } }
  if expiry ≤ now ∨ ∃ t ∈ row.op.responseExpiresAt, t ≤ now then
    pure
      ({ kept with
          outputLeaseExpiresAt := none
          op := { kept.op with outputStatus := .expired } },
        none)
  else pure (kept, some work)

/-- The retention that every write of plans or references still has to find open. -/
def CommandRow.Retained (row : CommandRow) (now : Time) : Prop :=
  Pending row.op.outputExpiresAt now ∧ ∀ t ∈ row.op.responseExpiresAt, now < t

instance (row : CommandRow) (now : Time) : Decidable (row.Retained now) :=
  inferInstanceAs (Decidable (_ ∧ ∀ t ∈ row.op.responseExpiresAt, now < t))

/-- The saved work of a live claim. -/
def CommandRow.claimedWork (row : CommandRow) (claim : OutputClaim)
    (projectDeleting allowSimulated : Bool) (now : Time) :
    Except OutputError (StreamEvidence × OutputWork) := do
  row.claimed claim projectDeleting now
  let e ← row.evidence enc
  ensure (e.simulated = true → allowSimulated = true) .simulationDenied
  let work ← row.saved e
  let work ← okOr work .badEvidence
  pure (e, work)

def saveOutputPlans (row : CommandRow) (claim : OutputClaim) (plans : OutputPlans)
    (projectDeleting allowSimulated : Bool) (now : Time) : Except OutputError CommandRow := do
  let (e, work) ← row.claimedWork enc claim projectDeleting allowSimulated now
  validatePlans work.ticket plans e
  ensure (∀ old ∈ work.plans, old = plans) .badEvidence
  ensure (row.Retained now) .expired
  pure { row with outputPlan := some plans }

def publishOutput (row : CommandRow) (claim : OutputClaim) (refs : OutputRefs)
    (projectDeleting allowSimulated : Bool) (now : Time) : Except OutputError CommandRow := do
  let (e, work) ← row.claimedWork enc claim projectDeleting allowSimulated now
  (refs.validate e.owner e.receipt.outputLimit).mapError fun _ => .badEvidence
  validatePlans work.ticket refs.plans e
  ensure (work.plans = some refs.plans) .badEvidence
  ensure (row.Retained now) .expired
  pure
    { row with
      outputRefs := [refs.stdout, refs.stderr]
      outputLeaseExpiresAt := none
      outputNextRetryAt := none
      op := { row.op with outputStatus := .published } }

end Evidence
end HudsonSandbox.Store
