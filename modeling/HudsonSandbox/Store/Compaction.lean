import HudsonSandbox.Store.Publication

/-!
# Output cleanup and payload compaction

The inventory of what may have been uploaded for a command, its verified retirement, and the
removal of an expired payload. Below them, every transaction on one command as one system.
-/

namespace HudsonSandbox.Store
open Checked GuestModel Command LiveOutput Output Run

section Cleanup
variable (enc : CommandEncoding) (hash : OutputPlan → String)

/-- `CleanupCompletion::validate` -/
def CleanupCompletion.validate (self : CleanupCompletion) (manifest : CleanupManifest) :
    Except OutputError Unit :=
  match self, manifest.plans with
  | .noUploadsAuthorized, none => ensure (manifest.references = none) .badEvidence
  | .retired stdout stderr, some plans => do
    (stdout.validate hash plans.stdout).mapError fun _ => .badEvidence
    (stderr.validate hash plans.stderr).mapError fun _ => .badEvidence
    ensure (∀ refs ∈ manifest.references, stdout.previous = some refs.stdout ∧
      stderr.previous = some refs.stderr) .badEvidence
  | _, _ => .error .badEvidence

/-- The stored references, as far as the status lets them be there. -/
def CommandRow.references (row : CommandRow) (e : StreamEvidence) (work : OutputWork) :
    Except OutputError (Option OutputRefs) :=
  match row.outputRefs with
  | [] => do
    ensure (row.op.outputStatus ≠ .published) .corrupt
    pure none
  | [stdout, stderr] => do
    ensure (row.op.outputStatus ≠ .uploading) .corrupt
    let refs : OutputRefs := { stdout, stderr }
    (refs.validate e.owner e.receipt.outputLimit).mapError fun _ => .corrupt
    ensure (work.plans = some refs.plans) .corrupt
    pure (some refs)
  | _ => .error .corrupt

def OutputStatus.Ticketed (status : OutputStatus) : Prop :=
  status = .uploading ∨ status = .published ∨ status = .expired

instance (status : OutputStatus) : Decidable status.Ticketed := inferInstanceAs (Decidable (_ ∨ _))

def CommandRow.manifest (row : CommandRow) : Except OutputError CleanupManifest := do
  ensure row.op.outputStatus.Ticketed .corrupt
  let e ← row.evidence enc
  let work ← row.saved e
  let work ← okOr work .corrupt
  let references ← row.references e work
  pure { version := 1, ticket := work.ticket, plans := work.plans, references,
         simulated := work.simulated }

def CleanupManifest.eligibleAt (manifest : CleanupManifest) : Time :=
  manifest.ticket.deleteAfterUnixMs * 1000

/-- The completed retirement, validated against all retained evidence. -/
def CommandRow.validateCompleted (row : CommandRow) : Except OutputError Unit := do
  let inventory ← okOr (row.cleanup.filter fun c => c.completedAt.isSome) .corrupt
  let current ← row.manifest enc
  let saved ← okOr inventory.manifest .corrupt
  let receipt ← okOr inventory.receipt .corrupt
  ensure (current = saved ∧ inventory.eligibleAt = some current.eligibleAt) .corrupt
  receipt.validate hash current

structure CleanupClaim where
  operationId : OperationId
  revision : ℤ
  deriving DecidableEq, Repr

/-- Queue the output of an operation whose retention ended. -/
def enqueueExpiredOutput (row : CommandRow) (now : Time) : Except OutputError CommandRow := do
  ensure (row.op.outputStatus.Ticketed ∧ row.outputTicket ≠ none ∧
    (∃ t ∈ row.op.outputExpiresAt, t ≤ now) ∧ row.cleanup = none) .lostClaim
  pure
    { row with
      cleanup := some
        { claimRevision := 0, leaseExpiresAt := none, nextRetryAt := none, manifest := none,
          eligibleAt := none, completedAt := none, receipt := none } }

def claimOutputCleanup (row : CommandRow) (lease : ℤ) (now : Time) : Except OutputError CommandRow := do
  ensure (1 ≤ lease ∧ lease ≤ 300) .invalidPolicy
  let inventory ← okOr row.cleanup .lostClaim
  ensure (inventory.completedAt = none ∧ Elapsed inventory.leaseExpiresAt now ∧
    Elapsed inventory.nextRetryAt now ∧ Elapsed inventory.eligibleAt now) .lostClaim
  pure
    { row with
      cleanup := some
        { inventory with
          claimRevision := inventory.claimRevision + 1
          leaseExpiresAt := some (now + seconds lease)
          nextRetryAt := none } }

/-- The inventory under a live cleanup claim on this row. -/
def CommandRow.cleaning (row : CommandRow) (claim : CleanupClaim) (now : Time) :
    Except OutputError OutputInventory := do
  let inventory ← okOr row.cleanup .lostClaim
  ensure (row.op.id = claim.operationId ∧ inventory.claimRevision = claim.revision ∧
    Pending inventory.leaseExpiresAt now) .lostClaim
  pure inventory

inductive CleanupPreparation where
  | waiting (eligibleAt : Time)
  | ready (manifest : CleanupManifest)

/-- Preserve what is known of the upload and revoke its publication. -/
def prepareOutputCleanup (row : CommandRow) (claim : CleanupClaim) (now : Time) :
    Except OutputError (CommandRow × CleanupPreparation) := do
  let inventory ← row.cleaning claim now
  ensure (inventory.completedAt = none) .lostClaim
  let manifest ← row.manifest enc
  ensure (∀ saved ∈ inventory.manifest, saved = manifest ∧
    inventory.eligibleAt = some manifest.eligibleAt) .corrupt
  ensure (∃ t ∈ row.op.outputExpiresAt, t ≤ now) .badEvidence
  let revoked := row.op.outputStatus ≠ .expired ∨ row.outputLeaseExpiresAt ≠ none
  let kept : CommandRow :=
    { row with
      outputClaimRevision := row.outputClaimRevision + if revoked then 1 else 0
      outputLeaseExpiresAt := none
      outputNextRetryAt := none
      op := { row.op with outputStatus := .expired }
      cleanup := some
        { inventory with
          manifest := some manifest
          eligibleAt := some manifest.eligibleAt
          leaseExpiresAt := if now < manifest.eligibleAt then none else inventory.leaseExpiresAt } }
  pure (kept, if now < manifest.eligibleAt then .waiting manifest.eligibleAt else .ready manifest)

def completeOutputCleanup (row : CommandRow) (claim : CleanupClaim) (receipt : CleanupCompletion)
    (allowSimulated : Bool) (now : Time) : Except OutputError CommandRow := do
  let inventory ← okOr row.cleanup .lostClaim
  ensure (row.op.id = claim.operationId ∧ inventory.claimRevision = claim.revision ∧
    (Pending inventory.leaseExpiresAt now ∨ inventory.completedAt ≠ none)) .lostClaim
  let current ← row.manifest enc
  let saved ← okOr inventory.manifest .badEvidence
  ensure (saved = current ∧ row.op.outputStatus = .expired ∧
    inventory.eligibleAt = some current.eligibleAt) .corrupt
  ensure (current.simulated = true → allowSimulated = true) .simulationDenied
  receipt.validate hash current
  if inventory.completedAt ≠ none then do
    -- a lost acknowledgement is reconciled by the same receipt
    ensure (inventory.receipt = some receipt) .badEvidence
    pure row
  else do
    ensure (Pending inventory.leaseExpiresAt now ∧ current.eligibleAt ≤ now) .lostClaim
    pure
      { row with
        cleanup := some
          { inventory with
            completedAt := some now, receipt := some receipt, leaseExpiresAt := none
            nextRetryAt := none } }

def deferOutputCleanup (row : CommandRow) (claim : CleanupClaim) (delay : ℤ) (now : Time) :
    Except OutputError CommandRow := do
  ensure (1 ≤ delay ∧ delay ≤ 3600) .invalidPolicy
  let inventory ← row.cleaning claim now
  pure
    { row with
      cleanup := some
        { inventory with leaseExpiresAt := none, nextRetryAt := some (now + seconds delay) } }

/-! ### Compaction -/

inductive Compaction where
  | idle | completed | deferred
  deriving DecidableEq, Repr

/-- The row that the query of `compact_expired_response` selects; no sandbox's transition is a
command. -/
def CommandRow.Compactable (row : CommandRow) (now : Time) : Prop :=
  row.payloadCompactedAt = none ∧ (∃ t ∈ row.op.responseExpiresAt, t ≤ now) ∧
    row.op.status.Terminal ∧ row.op.completedAt ≠ none ∧ row.op.leaseExpiresAt = none ∧
    row.op.nextRetryAt = none ∧ Elapsed row.payloadCompactionNextAt now ∧
    (row.op.outputStatus = .none ∨ row.op.outputStatus = .pending ∨
      row.op.outputStatus = .expired ∧ ∃ c ∈ row.cleanup, c.completedAt ≠ none)

instance (row : CommandRow) (now : Time) : Decidable (row.Compactable now) :=
  inferInstanceAs (Decidable (_ ∧ (∃ t ∈ row.op.responseExpiresAt, _) ∧ _ ∧ _ ∧ _ ∧ _ ∧ _ ∧
    (_ ∨ _ ∨ _ ∧ ∃ c ∈ row.cleanup, _)))

/-- `request` is what `validate_request` says of the row's request columns. -/
def CommandRow.validateExpired (row : CommandRow) (request : Except OutputError Unit) :
    Except OutputError CommandSummary := do
  request
  let summary ← row.summary enc
  if row.op.outputStatus = .pending then
    let _ ← row.evidence enc
    pure summary
  else if row.op.outputStatus = .expired then
    row.validateCompleted enc hash
    pure summary
  else pure summary

def CommandRow.compacted (row : CommandRow) (summary : CommandSummary) (now : Time) : CommandRow :=
  let pending := row.op.outputStatus = .pending
  { row with
    op :=
      { row.op with
        payload := CommandInput.erased
        outputStatus := if pending then .expired else row.op.outputStatus
        outputExpiresAt := if pending then row.op.responseExpiresAt else row.op.outputExpiresAt }
    commandSummary := some summary
    payloadCompactedAt := some now
    payloadCompactionNextAt := none
    outputClaimRevision := row.outputClaimRevision + if pending then 1 else 0
    outputLeaseExpiresAt := none
    outputNextRetryAt := none }

/-- Invalid stored evidence is preserved and deferred for operator review. -/
def compactExpiredResponse (row : CommandRow) (request : Except OutputError Unit) (now : Time) :
    Except OutputError (CommandRow × Compaction) :=
  if ¬row.Compactable now then .ok (row, .idle)
  else
    match row.validateExpired enc hash request with
    | .ok summary => .ok (row.compacted summary now, .completed)
    | .error .corrupt | .error .badEvidence =>
      .ok ({ row with payloadCompactionNextAt := some (now + seconds 3600) }, .deferred)
    | .error error => .error error

/-! ### Admission capacity -/

/-- A command that the host of its allocation may still have to hold. -/
def CommandRow.Unforgotten (row : CommandRow) (allocation : AllocationId)
    (completedThrough : Option OperationId) : Prop :=
  row.op.executionAllocationId = some allocation ∧ row.op.kind = .execute ∧
    ∀ through ∈ completedThrough, through < row.op.id

instance (row : CommandRow) (allocation : AllocationId) (completedThrough : Option OperationId) :
    Decidable (row.Unforgotten allocation completedThrough) :=
  inferInstanceAs (Decidable (_ ∧ _ ∧ ∀ through ∈ completedThrough, _))

def capacityError : OutputError → DispatchError
  | .query => .query
  | _ => .invalidData

def CommandRow.reserve (reserved : ℕ) (row : CommandRow) : Except DispatchError ℕ := do
  let summary ← (row.summary enc).mapError capacityError
  ensure (summary.outputLimit ≠ 0) .invalidData
  okOr (checkedAdd 64 reserved summary.outputLimit) .invalidData

/-- `has_capacity`, over the commands of the database in the order of their identities. Every one
above the completed prefix reserves a slot and its full output limit. -/
def hasCapacity (commands : List CommandRow) (allocation : AllocationId)
    (completedThrough : Option OperationId) (additionalOutput : Option ℕ) :
    Except DispatchError Bool := do
  let rows := (commands.filter fun row => row.Unforgotten allocation completedThrough).take
    (MAX_COMMANDS + 1)
  if MAX_COMMANDS < rows.length + additionalOutput.toList.length then pure false
  else do
    let reserved ← rows.foldlM (CommandRow.reserve enc) (additionalOutput.getD 0)
    pure (decide (reserved ≤ MAX_RESERVED_OUTPUT))

/-! ### One command as a system -/

/-- The same transaction under the policy of this deployment. -/
def ExecuteEvent.under (allowSimulated : Bool) : ExecuteEvent → ExecuteEvent
  | .finishExecuteObservation claim observation _ now =>
    .finishExecuteObservation claim observation allowSimulated now
  | event => event

inductive CommandEvent where
  | execute (event : ExecuteEvent)
  | claimOutput (lease : ℤ) (now : Time)
  | renewOutputClaim (claim : OutputClaim) (lease : ℤ) (now : Time)
  | deferOutput (claim : OutputClaim) (delay : ℤ) (now : Time)
  | prepareOutput (claim : OutputClaim) (retention grace : ℤ) (attempt : OperationId)
      (projectDeleting : Bool) (now : Time)
  | saveOutputPlans (claim : OutputClaim) (plans : OutputPlans) (projectDeleting : Bool) (now : Time)
  | publishOutput (claim : OutputClaim) (refs : OutputRefs) (projectDeleting : Bool) (now : Time)
  | enqueueExpiredOutput (now : Time)
  | claimOutputCleanup (lease : ℤ) (now : Time)
  | prepareOutputCleanup (claim : CleanupClaim) (now : Time)
  | completeOutputCleanup (claim : CleanupClaim) (receipt : CleanupCompletion) (now : Time)
  | deferOutputCleanup (claim : CleanupClaim) (delay : ℤ) (now : Time)
  | compactExpiredResponse (request : Except OutputError Unit) (now : Time)

/-- The transaction of an event on the columns beside the execution, with the row it commits. -/
def outputTransaction (allowSimulated : Bool) (row : CommandRow) :
    CommandEvent → Except OutputError CommandRow
  | .execute _ => .ok row
  | .claimOutput lease now => claimOutput row lease now
  | .renewOutputClaim claim lease now => renewOutputClaim row claim lease now
  | .deferOutput claim delay now => deferOutput row claim delay now
  | .prepareOutput claim retention grace attempt projectDeleting now =>
    (prepareOutput enc row claim retention grace attempt projectDeleting allowSimulated now).map
      Prod.fst
  | .saveOutputPlans claim plans projectDeleting now =>
    saveOutputPlans enc row claim plans projectDeleting allowSimulated now
  | .publishOutput claim refs projectDeleting now =>
    publishOutput enc row claim refs projectDeleting allowSimulated now
  | .enqueueExpiredOutput now => enqueueExpiredOutput row now
  | .claimOutputCleanup lease now => claimOutputCleanup row lease now
  | .prepareOutputCleanup claim now => (prepareOutputCleanup enc row claim now).map Prod.fst
  | .completeOutputCleanup claim receipt now =>
    completeOutputCleanup enc hash row claim receipt allowSimulated now
  | .deferOutputCleanup claim delay now => deferOutputCleanup row claim delay now
  | .compactExpiredResponse request now => (compactExpiredResponse enc hash row request now).map Prod.fst

/-- One transaction on a command under an unchanged simulation policy. -/
def commandStep (allowSimulated : Bool) (row : CommandRow) : CommandEvent → CommandRow
  | .execute event =>
    { row with toExecuteRow := executeStep enc row.toExecuteRow (event.under allowSimulated) }
  | event => commit row (outputTransaction enc hash allowSimulated row event)

end Cleanup
end HudsonSandbox.Store
