import HudsonSandbox.Protocol.History
import HudsonSandbox.Store.Compaction
import HudsonSandbox.Uploads.Row

/-!
# Evidence of ended operations

What history retirement reads back from a row before it lets a host forget the operation: that it
ended, that nobody works on it, and the guest that reported its receipt. An upload's row carries
here the outcome columns that no transfer reads.
-/

namespace HudsonSandbox.History
open Checked GuestModel Command LiveOutput Store Uploads Supervisor SupervisorFiles Files FileSources
  Artifacts Run

inductive HistoryError where
  | evidence | lostClaim | policy | query
  deriving DecidableEq, Repr

/-! ### The outcome columns of an upload -/

inductive FilePhase where
  | awaitingSource | sourceReady | fileBeginIntent | fileStaging | reconciling | fileNotStarted
  | fileCommitted | fileAborted
  deriving DecidableEq, Repr

/-- The one key of `result` and `error` that anybody reads again. -/
structure FileOutcome where
  simulated : Option Bool
  deriving DecidableEq, Repr

structure FileRow extends Progress where
  phase : FilePhase
  result : Option FileOutcome
  error : Option FileOutcome
  responseExpiresAt : Option Time

def FileRow.admitted (row : UploadRow) : FileRow :=
  { toProgress := Progress.admitted row, phase := .awaitingSource, result := none, error := none,
    responseExpiresAt := none }

/-- What an upload leaves that got no evidence in its turn. -/
def FileRow.unobserved (row : FileRow) (next : Progress) : FileRow :=
  { row with
    toProgress := next
    phase := if row.file.beginRequested then .reconciling else .awaitingSource
    result := none
    error := some { simulated := none } }

def FileRow.observed (row : FileRow) (next : Progress) (o : FileObservation) : FileRow :=
  let state := (next.record.map (observedState o)).getD 0
  let report : FileOutcome := { simulated := some o.simulated }
  if o.notStarted = true then
    { row with toProgress := next, phase := .fileNotStarted, result := none, error := some report }
  else
    match state with
    | 3 => { row with toProgress := next, phase := .fileCommitted, result := some report, error := none }
    | 5 => { row with toProgress := next, phase := .fileAborted, result := none, error := some report }
    | 1 => { row with toProgress := next, phase := .fileStaging, result := none, error := none }
    | _ => { row with toProgress := next, phase := .reconciling, result := none, error := some report }

/-- The outcome columns that a committed transaction writes beside the transfer. -/
def FileRow.next (row : FileRow) (next : Progress) : UploadEvent → FileRow
  | .prepareUpload .. =>
    if next.op.status = .failed then
      { row with
        toProgress := next, phase := .fileNotStarted, result := none
        error := some { simulated := none } }
    else if row.file.beginRequested = false ∧ next.file.beginRequested = true then
      { row with toProgress := next, phase := .fileBeginIntent }
    else { row with toProgress := next }
  | .acceptUploadSource .. =>
    { row with toProgress := next, phase := .sourceReady, result := none, error := none }
  | .uploadUnknown .. => row.unobserved next
  | .observeUpload _ o .. =>
    if o.notStarted = false ∧ o.context = none then row.unobserved next else row.observed next o
  | _ => { row with toProgress := next }

inductive FileEvent where
  | upload (event : UploadEvent)
  | assignRetention (period : ℤ)

section Files
variable (enc : Encoding) (request : SandboxId → UploadInput → BitVec 256) (file : FileEncoding)

/-- The same transaction under the policy of this deployment. -/
def underPolicy (allowSimulated : Bool) : UploadEvent → UploadEvent
  | .observeUpload claim o written _ now => .observeUpload claim o written allowSimulated now
  | event => event

def assignFileRetention (row : FileRow) (period : ℤ) : Except DispatchError FileRow := do
  ensure (row.op.status.Terminal ∧ row.responseExpiresAt = none) .conflict
  let completed ← okOr row.op.completedAt .conflict
  pure { row with responseExpiresAt := some (completed + seconds period) }

def fileTransaction (allowSimulated : Bool) (row : FileRow) : FileEvent → Except DispatchError FileRow
  | .upload event => do
    let next ← transact enc request file row.toProgress (underPolicy allowSimulated event)
    pure (row.next next event)
  | .assignRetention period => assignFileRetention row period

def fileStep (allowSimulated : Bool) (row : FileRow) (event : FileEvent) : FileRow :=
  commit row (fileTransaction enc request file allowSimulated row event)

end Files

/-! ### `evidence::eligible` -/

/-- The row ended and no controller holds or awaits it. -/
def Ended (op : Operation) : Prop :=
  op.status.Terminal ∧ op.completedAt ≠ none ∧ op.leaseExpiresAt = none ∧ op.nextRetryAt = none

instance (op : Operation) : Decidable (Ended op) := inferInstanceAs (Decidable (_ ∧ _))

def outputError : OutputError → HistoryError
  | .query => .query
  | _ => .evidence

section Commands
variable (enc : CommandEncoding) (hash : Output.OutputPlan → String)

/-- The tuple under which the allocation's own host knows the command. -/
def pinnedOwner (row : CommandRow) : Ownership :=
  { hostId := row.allocation.hostId, projectId := row.allocation.projectId,
    sandboxId := row.allocation.sandboxId, allocationId := row.allocation.id,
    operationId := row.op.id, generation := row.allocation.generation,
    supervisorEpoch := row.allocation.supervisorEpoch, claimRevision := 0,
    claimExpiresUnixMs := 0 }

/-- The outcomes of a row that nobody dispatched. -/
def Unsent (op : ExecuteOperation) : Prop :=
  (op.status = .failed ∧ op.phase = .rejectedBeforeDispatch ∨
    op.status = .cancelled ∧ op.phase = .cancelledBeforeDispatch) ∧
    op.attemptReceipts = [] ∧ op.outputStatus = .none

instance (op : ExecuteOperation) : Decidable (Unsent op) := inferInstanceAs (Decidable (_ ∧ _))

def fencedOutcome (op : ExecuteOperation) : Prop :=
  op.status = .failed ∧ op.phase = .notStarted ∨
    op.status = .cancelled ∧ op.phase = .cancelledBeforeStart

instance (op : ExecuteOperation) : Decidable (fencedOutcome op) := inferInstanceAs (Decidable (_ ∨ _))

/-- The evidence of a fence that kept the command from starting. -/
def eligibleFenced (row : CommandRow) (digest : Digest) (allowSimulated : Bool) :
    Except HistoryError (Option (Option GuestModel.Context)) := do
  ensure (fencedOutcome row.op) .evidence
  match row.op.attemptReceipts with
  | [intent, observed] => do
    ensure (observed.phase = .commandFencedBeforeStart ∧ observed.notStarted = true ∧
      observed.guestReceipt = none ∧ observed.commandDigest = some digest ∧
      row.op.outputStatus = .none ∧ SameScope observed.owner intent.owner) .evidence
    let simulated ← okOr observed.simulated .evidence
    ensure (simulated = true → allowSimulated = true) .evidence
    pure (some none)
  | _ => .error .evidence

/-- The evidence of a guest's receipt, once its output is gone. -/
def eligibleObserved (row : CommandRow) (allowSimulated : Bool) :
    Except HistoryError (Option (Option GuestModel.Context)) := do
  let e ← (row.evidence enc).mapError outputError
  ensure (e.simulated = true → allowSimulated = true) .evidence
  if row.op.outputStatus ≠ .expired then pure none
  else if row.outputTicket ≠ none then do
    (row.validateCompleted enc hash).mapError outputError
    pure (some (some e.receipt.context))
  else do
    ensure (row.payloadCompactedAt ≠ none) .evidence
    pure (some (some e.receipt.context))

def eligibleCommand (row : CommandRow) (allowSimulated : Bool) :
    Except HistoryError (Option (Option GuestModel.Context)) := do
  ensure (row.op.kind = .execute) .evidence
  if ¬Ended row.op.toOperation then pure none
  else do
    let summary ← (row.summary enc).mapError fun _ => .evidence
    if row.op.attemptCount = 0 then do
      ensure (Unsent row.op) .evidence
      pure (some none)
    else do
      (validateIntent row.op (pinnedOwner row) summary.digest).mapError fun _ => .evidence
      if row.op.phase = .notStarted ∨ row.op.phase = .cancelledBeforeStart then
        eligibleFenced row summary.digest allowSimulated
      else eligibleObserved enc hash row allowSimulated

end Commands

section Uploads
variable (enc : Encoding) (request : SandboxId → UploadInput → BitVec 256) (file : FileEncoding)

def retirementError : DispatchError → HistoryError
  | .query => .query
  | _ => .evidence

/-- The status and phase under which a record ends an upload. -/
def endedAs (record : FileRecord) (status : Store.Status) : Option FilePhase :=
  if record.notStarted = true then if status = .failed then some .fileNotStarted else none
  else
    match record.state with
    | 3 => if status = .succeeded then some .fileCommitted else none
    | 5 => if status = .failed then some .fileAborted else none
    | _ => none

def eligibleFile (row : FileRow) (allowSimulated : Bool) :
    Except HistoryError (Option (Option GuestModel.Context)) := do
  ensure (row.op.kind = .fileWrite) .evidence
  if ¬Ended row.op.toOperation then pure none
  else if row.file.sourceRetiredAt = none then pure none
  else do
    let plan ← (validateRetired enc request row.toUploadRow).mapError retirementError
    if row.file.beginRequested = false then do
      ensure (row.op.status = .failed ∧ row.op.attemptCount = 0 ∧ row.phase = .fileNotStarted ∧
        row.record = none) .evidence
      pure (some none)
    else do
      let record ← okOr row.record .evidence
      (record.validate file).mapError fun _ => .evidence
      let digest ← (file.digest plan.upload).mapError fun _ => .evidence
      ensure (record.digest = digest ∧
        (record.notStarted = false → record.size = plan.upload.size)) .evidence
      let reported ← okOr (if row.op.status = .succeeded then row.result else row.error) .evidence
      let simulated ← okOr reported.simulated .evidence
      ensure (simulated = true → allowSimulated = true) .evidence
      ensure (endedAs record row.op.status = some row.phase) .evidence
      ensure (∀ c ∈ record.context, c.allocationId = plan.owner.scope.allocationId ∧
        c.generation = plan.owner.scope.generation) .evidence
      pure (some record.context)

end Uploads
end HudsonSandbox.History
