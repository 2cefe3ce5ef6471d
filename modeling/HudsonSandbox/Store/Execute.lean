import HudsonSandbox.Protocol.Command
import HudsonSandbox.Protocol.LiveOutput
import HudsonSandbox.Store.Operation

/-!
# Execute rows

An admitted command in the database: its row, the allocation it is pinned to, the cancellation
that may be requested for it, and every transaction that moves it towards an outcome.
-/

namespace HudsonSandbox.Store
open Checked GuestModel Command LiveOutput

inductive ExecutePhase where
  | admitted | executeDispatched | executing | reconciling | exited | timedOut | cancelled
  | notStarted | cancelledBeforeStart | rejectedBeforeDispatch | cancelledBeforeDispatch
  deriving DecidableEq, Repr

inductive EvidencePhase where
  | executeDispatchIntent | commandObserved | commandFencedBeforeStart
  deriving DecidableEq, Repr

/-- An entry of `attempt_receipts`. -/
structure ExecuteEvidence where
  phase : EvidencePhase
  owner : Ownership
  simulated : Option Bool
  commandDigest : Option Digest
  observedUnixMs : Option ℤ
  guestReceipt : Option Receipt
  notStarted : Bool
  deriving DecidableEq

inductive OutputStatus where
  | none | pending | uploading | published | expired
  deriving DecidableEq, Repr

structure ExecuteOperation extends Operation where
  deadline : Time
  payload : CommandInput
  executionAllocationId : Option AllocationId
  phase : ExecutePhase
  attemptReceipts : List ExecuteEvidence
  outputStatus : OutputStatus
  outputExpiresAt : Option Time
  responseExpiresAt : Option Time
  deriving DecidableEq

/-- The columns of the pinned allocation that never change, with what placement guarantees. -/
structure PinnedAllocation where
  id : AllocationId
  projectId : ProjectId
  sandboxId : SandboxId
  hostId : HostId
  generation : ℤ
  supervisorEpoch : ℤ
  generationPositive : 0 < generation
  epochPositive : 0 < supervisorEpoch
  deriving DecidableEq

structure ExecuteRow where
  op : ExecuteOperation
  allocation : PinnedAllocation
  /-- The cancellation of this command that is still requested. -/
  cancel : Option Operation

section Transactions
variable (enc : CommandEncoding)

/-! ### Admission -/

structure ExecuteCommand where
  projectId : ProjectId
  sandboxId : SandboxId
  command : CommandInput

/-- `admit_execute` on a running allocation, from the deadline check to the insert. The clock is
a natural number: database time is past the epoch. -/
def admitExecute (r : ExecuteCommand) (id : OperationId) (allocation : PinnedAllocation)
    (now : ℕ) : Option ExecuteRow := do
  guard (r.command.validate enc = .ok ())
  let remaining := r.command.deadlineUnixMs - ms now
  guard (1 ≤ remaining ∧ remaining ≤ MAX_DURATION_MS)
  guard (allocation.projectId = r.projectId ∧ allocation.sandboxId = r.sandboxId)
  pure
    { allocation
      cancel := none
      op :=
        { id, projectId := r.projectId, sandboxId := r.sandboxId, kind := .execute,
          status := .queued, claimRevision := 0, leaseExpiresAt := none, nextRetryAt := none,
          attemptCount := 0, deadline := r.command.deadlineUnixMs * 1000, completedAt := none,
          payload := r.command, executionAllocationId := some allocation.id, phase := .admitted,
          attemptReceipts := [], outputStatus := .none, outputExpiresAt := none,
          responseExpiresAt := none } }

/-! ### The claim holder -/

structure ExecuteContext where
  owner : Ownership
  command : Execute
  digest : Digest

/-- The tuple that identifies the command on its host, under the row's current claim. -/
def ExecuteRow.owner (row : ExecuteRow) (revision expires : ℤ) : Ownership :=
  { hostId := row.allocation.hostId, projectId := row.op.projectId, sandboxId := row.op.sandboxId,
    allocationId := row.allocation.id, operationId := row.op.id,
    generation := row.allocation.generation, supervisorEpoch := row.allocation.supervisorEpoch,
    claimRevision := revision, claimExpiresUnixMs := expires }

def executeContext (row : ExecuteRow) (claim : Claim) (now : Time) :
    Except DispatchError ExecuteContext := do
  ensure (row.op.Fenced claim now) .lostClaim
  ensure (row.op.kind = .execute) .conflict
  let allocation ← okOr row.op.executionAllocationId .invalidData
  ensure (row.allocation.id = allocation ∧ row.allocation.sandboxId = row.op.sandboxId) .query
  (row.op.payload.validate enc).mapError fun _ => .invalidData
  let command := row.op.payload.forOperation row.op.id
  pure
    { command, digest := enc.digest command
      owner := row.owner claim.revision (ms (row.op.leaseExpiresAt.getD 0)) }

/-- The ownership fields that both a dispatch intent and an observation carry. -/
def SameScope (a b : Ownership) : Prop :=
  a.hostId = b.hostId ∧ a.projectId = b.projectId ∧ a.sandboxId = b.sandboxId ∧
    a.operationId = b.operationId ∧ a.allocationId = b.allocationId ∧
    a.generation = b.generation ∧ a.supervisorEpoch = b.supervisorEpoch

instance (a b : Ownership) : Decidable (SameScope a b) := inferInstanceAs (Decidable (_ ∧ _))

def validateIntent (op : ExecuteOperation) (owner : Ownership) (digest : Digest) :
    Except DispatchError Unit := do
  let recorded ← okOr op.attemptReceipts.head? .invalidData
  ensure (op.attemptCount = 1 ∧ recorded.commandDigest = some digest ∧
    recorded.phase = .executeDispatchIntent ∧ SameScope recorded.owner owner) .invalidData

/-- An update of the row under its fence that ends the claim. -/
def ExecuteOperation.settle (op : ExecuteOperation) (status : Status) (phase : ExecutePhase)
    (now : Time) : ExecuteOperation :=
  { op with
    status, phase
    completedAt := if status.Terminal then some now else none
    leaseExpiresAt := none
    nextRetryAt := if status.Terminal then none else some (now + seconds 1) }

/-- What the database says of a first dispatch besides the row itself. -/
structure Authority where
  authorized : Bool
  current : Bool
  capacity : Bool
  hostValid : Bool

inductive ExecuteAction where
  | dispatch (owner : Ownership) (command : Execute)
  | inspect (owner : Ownership) (digest : Digest)
  | cancel (owner : Ownership) (digest : Digest)
  | rejected

def prepareExecute (row : ExecuteRow) (claim : Claim) (host : HostId) (epoch : ℤ)
    (authority : Authority) (now : Time) : Except DispatchError (ExecuteRow × ExecuteAction) := do
  let ctx ← executeContext enc row claim now
  if 0 < row.op.attemptCount ∨ row.op.status = .unknown then
    validateIntent row.op ctx.owner ctx.digest
    pure (row, if row.cancel.isSome then .cancel ctx.owner ctx.digest else .inspect ctx.owner ctx.digest)
  else if row.cancel.isSome then
    ensure (row.op.attemptReceipts = []) .invalidData
    pure ({ row with op := row.op.settle .cancelled .cancelledBeforeDispatch now }, .rejected)
  else
    ensure (row.allocation.hostId = host ∧ ctx.owner.supervisorEpoch = epoch) .hostUnavailable
    if authority.authorized = true ∧ authority.current = true ∧ authority.capacity = true then
      ensure (authority.hostValid = true) .hostUnavailable
      ensure (now < row.op.deadline) .conflict
      let intent : ExecuteEvidence :=
        { phase := .executeDispatchIntent, owner := ctx.owner, simulated := none,
          commandDigest := some ctx.digest, observedUnixMs := none, guestReceipt := none,
          notStarted := false }
      pure
        ({ row with
            op :=
              { row.op with
                phase := .executeDispatched, attemptCount := 1, attemptReceipts := [intent] } },
          .dispatch ctx.owner ctx.command)
    else
      pure ({ row with op := row.op.settle .failed .rejectedBeforeDispatch now }, .rejected)

structure CommandObservation where
  ownership : Option Ownership
  commandDigest : Digest
  notStarted : Bool
  simulated : Bool
  observedUnixMs : ℤ
  receipt : Option Receipt

/-- The checks of a guest receipt against the command it answers for. -/
def checkReceipt (row : ExecuteRow) (ctx : ExecuteContext) (previous : Option ExecuteEvidence)
    (receipt : Receipt) : Except DispatchError Unit := do
  receipt.validate.mapError fun _ => .badEvidence
  ensure (receipt.operationId = row.op.id ∧ receipt.context.allocationId = row.allocation.id ∧
    receipt.context.generation = ctx.owner.generation ∧ receipt.digest = ctx.digest ∧
    receipt.deadlineUnixMs = ctx.command.deadlineUnixMs ∧
    receipt.outputLimit = ctx.command.outputLimit) .badEvidence
  ensure (∀ before ∈ previous, ∀ seen ∈ before.guestReceipt,
    seen.context.bootId = receipt.context.bootId) .badEvidence

def checkObservation (row : ExecuteRow) (ctx : ExecuteContext) (previous : Option ExecuteEvidence)
    (observation : Option CommandObservation) (allowSimulated : Bool) (now : Time) :
    Except DispatchError Unit :=
  match observation with
  | none => pure ()
  | some o => do
    ensure (o.simulated = true → allowSimulated = true) .simulationDenied
    ensure (o.ownership = some ctx.owner ∧ o.commandDigest = ctx.digest ∧
      ¬(o.notStarted = true ∧ o.receipt ≠ none)) .badEvidence
    ensure (Fresh now o.observedUnixMs) .badEvidence
    ensure (o.notStarted = true → ∀ before ∈ previous, before.guestReceipt = none) .badEvidence
    match o.receipt with
    | none => pure ()
    | some receipt => checkReceipt row ctx previous receipt

def outcome (receipt : Option Receipt) (notStarted cancellation : Bool) : Status × ExecutePhase :=
  match receipt.map Receipt.state with
  | some .exited =>
    if ∃ r ∈ receipt, r.exitCode = some 0 then (.succeeded, .exited) else (.failed, .exited)
  | some .timedOut => (.failed, .timedOut)
  | some .cancelled => (.cancelled, .cancelled)
  | some .launchIntent => (.running, .executing)
  | _ =>
    if notStarted = true ∧ cancellation = true then (.cancelled, .cancelledBeforeStart)
    else if notStarted = true then (.failed, .notStarted)
    else (.unknown, .reconciling)

def observedEvidence (ctx : ExecuteContext) (o : CommandObservation) (receipt : Receipt) :
    ExecuteEvidence :=
  { phase := .commandObserved, owner := ctx.owner, simulated := some o.simulated,
    commandDigest := none, observedUnixMs := some o.observedUnixMs, guestReceipt := some receipt,
    notStarted := false }

def fencedEvidence (ctx : ExecuteContext) (o : CommandObservation) : ExecuteEvidence :=
  { phase := .commandFencedBeforeStart, owner := ctx.owner, simulated := some o.simulated,
    commandDigest := some ctx.digest, observedUnixMs := some o.observedUnixMs, guestReceipt := none,
    notStarted := true }

/-- The evidence of an observation, or what an earlier one left. -/
def nextEvidence (ctx : ExecuteContext) (previous : Option ExecuteEvidence)
    (observation : Option CommandObservation) : Option ExecuteEvidence :=
  match observation with
  | none => previous
  | some o =>
    match o.receipt with
    | some receipt => some (observedEvidence ctx o receipt)
    | none => if o.notStarted = true then some (fencedEvidence ctx o) else previous

/-- The update that ends a claim with what was observed. -/
def ExecuteOperation.observe (op : ExecuteOperation) (ctx : ExecuteContext)
    (observation : Option CommandObservation) (cancellation : Bool) (now : Time) : ExecuteOperation :=
  let receipt := observation.bind CommandObservation.receipt
  let next := outcome receipt (observation.any CommandObservation.notStarted) cancellation
  { op.settle next.1 next.2 now with
    attemptReceipts := op.attemptReceipts.head?.toList ++
      (nextEvidence ctx op.attemptReceipts[1]? observation).toList
    outputStatus := if next.1.Terminal ∧ receipt ≠ none then .pending else op.outputStatus }

/-- `record_execute_unknown` without an observation, `record_execute_observation` with one. -/
def finishExecuteObservation (row : ExecuteRow) (claim : Claim)
    (observation : Option CommandObservation) (allowSimulated : Bool) (now : Time) :
    Except DispatchError ExecuteRow := do
  let ctx ← executeContext enc row claim now
  validateIntent row.op ctx.owner ctx.digest
  checkObservation row ctx row.op.attemptReceipts[1]? observation allowSimulated now
  pure { row with op := row.op.observe ctx observation row.cancel.isSome now }

/-! ### Claims, cancellation and retention -/

/-- A claim transaction on the row's shared columns. -/
def updateClaim (row : ExecuteRow) (allowed : Prop) [Decidable allowed] (op : Operation) :
    Except DispatchError ExecuteRow := do
  ensure allowed .lostClaim
  pure { row with op := { row.op with toOperation := op } }

def claimExecute (row : ExecuteRow) (lease : ℤ) (now : Time) : Except DispatchError ExecuteRow :=
  updateClaim row (row.op.Claimable now) (row.op.claimNext lease now)

def renewExecute (row : ExecuteRow) (claim : Claim) (lease : ℤ) (now : Time) :
    Except DispatchError ExecuteRow :=
  updateClaim row (row.op.Fenced claim now) (row.op.renewClaim lease now)

def deferExecute (row : ExecuteRow) (claim : Claim) (delay : ℤ) (now : Time) :
    Except DispatchError ExecuteRow :=
  updateClaim row (row.op.Fenced claim now) (row.op.deferClaim delay now)

/-- `admit_cancel` for this command. One that is done is answered by a completed cancellation. -/
def admitCancel (row : ExecuteRow) (id : OperationId) : Except DispatchError ExecuteRow := do
  ensure (row.op.status.Terminal ∨ row.op.executionAllocationId ≠ none) .conflict
  ensure (row.cancel = none) .conflict
  if row.op.status.Terminal then pure row
  else
    pure
      { row with
        cancel := some
          { id, projectId := row.op.projectId, sandboxId := row.op.sandboxId, kind := .cancel,
            status := .queued, claimRevision := 0, leaseExpiresAt := none, nextRetryAt := none,
            attemptCount := 0, completedAt := none } }

def claimCancel (row : ExecuteRow) (lease : ℤ) (now : Time) : Except DispatchError ExecuteRow := do
  let cancel ← okOr row.cancel .lostClaim
  ensure (cancel.Claimable now) .lostClaim
  pure { row with cancel := some (cancel.claimNext lease now) }

/-- The target of a cancellation that provably was never dispatched. -/
def ExecuteOperation.Undispatched (op : ExecuteOperation) : Prop :=
  (op.status = .queued ∨ op.status = .running) ∧ op.attemptCount = 0 ∧ op.attemptReceipts = []

instance (op : ExecuteOperation) : Decidable op.Undispatched := inferInstanceAs (Decidable (_ ∧ _))

/-- The target after its cancellation was reconciled. No dispatch exists without its committed
intent, so any claimant of an undispatched row is revoked with it. -/
def ExecuteOperation.revoke (op : ExecuteOperation) (now : Time) : ExecuteOperation :=
  if op.Undispatched then
    { op.settle .cancelled .cancelledBeforeDispatch now with claimRevision := op.claimRevision + 1 }
  else op

def reconcileCancel (row : ExecuteRow) (claim : Claim) (now : Time) :
    Except DispatchError ExecuteRow := do
  let cancel ← okOr row.cancel .lostClaim
  ensure (cancel.Fenced claim now) .lostClaim
  pure
    { row with
      op := row.op.revoke now
      cancel :=
        if (row.op.revoke now).status.Terminal then none
        else some { cancel with leaseExpiresAt := none, nextRetryAt := some (now + seconds 1) } }

/-- Retention of a terminal row's response, assigned once. -/
def assignRetention (row : ExecuteRow) (period : ℤ) : Except DispatchError ExecuteRow := do
  ensure (row.op.status.Terminal ∧ row.op.responseExpiresAt = none) .conflict
  let completed ← okOr row.op.completedAt .conflict
  pure { row with op := { row.op with responseExpiresAt := some (completed + seconds period) } }

end Transactions
end HudsonSandbox.Store
