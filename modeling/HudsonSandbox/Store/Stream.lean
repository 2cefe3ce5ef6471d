import HudsonSandbox.Library.Run
import HudsonSandbox.Store.Execute

/-!
# Stream resolution

The read-only lookup that decides from one execute row which stream a reader gets, and what it
answers for every row that the command transactions can produce.
-/

namespace HudsonSandbox.Store
open Checked GuestModel Command LiveOutput Run

inductive OutputError where
  | lostClaim | invalidPolicy | badEvidence | corrupt | simulationDenied | projectDeleting
  | expired | query
  deriving DecidableEq, Repr

/-- The changing columns of the pinned allocation and its host, as one read sees them. -/
structure AllocationView where
  status : AllocationStatus
  leaseExpiresAt : Option Time
  releasedAt : Option Time
  hostEpoch : ℤ

structure OutputView where
  status : OutputStatus
  expiresAt : Option Time
  deriving DecidableEq

inductive StreamSource where
  | pending
  | missing
  | expired
  | live (scope : LiveOutputScope) (simulated : Bool)
  | archived (view : OutputView)
  deriving DecidableEq

structure StreamView where
  source : StreamSource
  expiresAt : Option Time
  deriving DecidableEq

section Lookup
variable (enc : CommandEncoding)

structure StreamEvidence where
  owner : OutputOwner
  receipt : Receipt
  simulated : Bool

def StreamEvidence.scope (e : StreamEvidence) : LiveOutputScope :=
  { version := 1, owner := e.owner, commandDigest := e.receipt.digest,
    outputLimit := e.receipt.outputLimit, deadlineUnixMs := e.receipt.deadlineUnixMs }

def ExecuteRow.outputOwner (row : ExecuteRow) (receipt : Receipt) : OutputOwner :=
  { projectId := row.op.projectId, sandboxId := row.op.sandboxId, operationId := row.op.id,
    allocationId := receipt.context.allocationId, generation := row.allocation.generation,
    hostId := row.allocation.hostId, hostEpoch := row.allocation.supervisorEpoch,
    bootId := receipt.context.bootId }

/-- `execution_evidence` of a row whose payload is not compacted. -/
def executionEvidence (row : ExecuteRow) : Except OutputError StreamEvidence := do
  let op := row.op
  let allocation ← okOr op.executionAllocationId .corrupt
  ensure (row.allocation.id = allocation ∧ row.allocation.projectId = op.projectId ∧
    row.allocation.sandboxId = op.sandboxId) .corrupt
  (op.payload.validate enc).mapError fun _ => .corrupt
  let digest := enc.digest (op.payload.forOperation op.id)
  (validateIntent op (row.owner 0 0) digest).mapError fun _ => .corrupt
  let intent ← okOr op.attemptReceipts[0]? .corrupt
  let observed ← okOr op.attemptReceipts[1]? .corrupt
  ensure (op.attemptReceipts.length = 2 ∧ observed.phase = .commandObserved ∧
    SameScope observed.owner intent.owner) .corrupt
  let simulated ← okOr observed.simulated .corrupt
  let receipt ← okOr observed.guestReceipt .corrupt
  receipt.validate.mapError fun _ => .corrupt
  ensure (op.kind = .execute ∧ receipt.operationId = op.id ∧
    receipt.context.allocationId = allocation ∧
    receipt.context.generation = row.allocation.generation ∧ receipt.digest = digest ∧
    receipt.outputLimit = op.payload.outputLimit ∧
    receipt.deadlineUnixMs = op.payload.deadlineUnixMs) .corrupt
  pure { owner := row.outputOwner receipt, receipt, simulated }

/-- The combinations of row and receipt that the lookup knows. -/
def Consistent (op : ExecuteOperation) (receipt : Receipt) : Prop :=
  match op.status, op.phase, receipt.state with
  | .running, .executing, .launchIntent => op.completedAt = none
  -- A retained boot binding may survive a lost later observation.
  | .unknown, .reconciling, .launchIntent | .unknown, .reconciling, .unknown => op.completedAt = none
  | .succeeded, .exited, .exited => op.completedAt ≠ none ∧ receipt.exitCode = some 0
  | .failed, .exited, .exited => op.completedAt ≠ none ∧ receipt.exitCode ≠ some 0
  | .failed, .timedOut, .timedOut | .cancelled, .cancelled, .cancelled => op.completedAt ≠ none
  | _, _, _ => False

instance (op : ExecuteOperation) (receipt : Receipt) : Decidable (Consistent op receipt) := by
  unfold Consistent
  split <;> infer_instance

def AllocationView.Live (view : AllocationView) (allocation : PinnedAllocation) (now : Time) : Prop :=
  view.status = .running ∧ Pending view.leaseExpiresAt now ∧ view.releasedAt = none ∧
    view.hostEpoch = allocation.supervisorEpoch

instance (view : AllocationView) (allocation : PinnedAllocation) (now : Time) :
    Decidable (view.Live allocation now) := inferInstanceAs (Decidable (_ ∧ _))

/-- The stream of a row that is neither expired nor published. -/
def resolveStream (row : ExecuteRow) (view : AllocationView) (now : Time) :
    Except OutputError StreamSource := do
  if row.op.attemptCount = 0 then pure .pending
  else
    ensure (row.op.attemptCount = 1) .corrupt
    match row.op.attemptReceipts with
    | [_] => pure .pending
    | [_, observed] =>
      if observed.phase = .commandFencedBeforeStart then pure .missing
      else
        let e ← executionEvidence enc row
        ensure (Consistent row.op e.receipt) .corrupt
        if view.Live row.allocation now then
          e.scope.validate.mapError fun _ => .corrupt
          pure (.live e.scope e.simulated)
        else pure .missing
    | _ => .error .corrupt

def ExecuteOperation.expiresAt (op : ExecuteOperation) : Option Time :=
  match op.responseExpiresAt, op.outputExpiresAt with
  | some a, some b => some (min a b)
  | a, b => a.or b

def ExecuteOperation.Expired (op : ExecuteOperation) (now : Time) : Prop :=
  op.outputStatus = .expired ∨ ∃ t ∈ op.expiresAt, t ≤ now

instance (op : ExecuteOperation) (now : Time) : Decidable (op.Expired now) :=
  inferInstanceAs (Decidable (_ ∨ _))

/-- The row that the query of a tenant's lookup matches. -/
def ExecuteRow.Visible (row : ExecuteRow) (project : ProjectId) (operation : OperationId)
    (active : Bool) : Prop :=
  row.op.id = operation ∧ row.op.projectId = project ∧ row.op.kind = .execute ∧ active = true

instance (row : ExecuteRow) (project : ProjectId) (operation : OperationId) (active : Bool) :
    Decidable (row.Visible project operation active) := inferInstanceAs (Decidable (_ ∧ _))

/-- `outputForProject` stands for the verifier of published references. -/
def streamForProject (outputForProject : ExecuteRow → Except OutputError (Option OutputView))
    (row : ExecuteRow) (project : ProjectId) (operation : OperationId) (active : Bool)
    (view : AllocationView) (now : Time) : Except OutputError (Option StreamView) := do
  if ¬row.Visible project operation active then pure none
  else if row.op.Expired now then pure (some { source := .expired, expiresAt := row.op.expiresAt })
  else if row.op.outputStatus = .published then
    let found ← outputForProject row
    pure (found.map fun v =>
      { source := if v.status = .expired then .expired else .archived v, expiresAt := v.expiresAt })
  else
    let source ← resolveStream enc row view now
    pure (some { source, expiresAt := row.op.expiresAt })

end Lookup

/-! ### The rows that transactions produce -/

section Rows
variable {enc : CommandEncoding} {row row' : ExecuteRow} {now : Time} {claim : Claim}

/-- The first entry of a dispatched row: the intent of this very command. -/
structure Intent (enc : CommandEncoding) (row : ExecuteRow) (intent : ExecuteEvidence) : Prop where
  phase : intent.phase = .executeDispatchIntent
  digest : intent.commandDigest = some (enc.digest (row.op.payload.forOperation row.op.id))
  scope : SameScope intent.owner (row.owner 0 0)

structure Observed (enc : CommandEncoding) (row : ExecuteRow) (observed : ExecuteEvidence)
    (receipt : Receipt) : Prop where
  phase : observed.phase = .commandObserved
  scope : SameScope observed.owner (row.owner 0 0)
  simulated : observed.simulated ≠ none
  guestReceipt : observed.guestReceipt = some receipt
  valid : receipt.validate = .ok ()
  command : receipt.operationId = row.op.id ∧ receipt.context.allocationId = row.allocation.id ∧
    receipt.context.generation = row.allocation.generation ∧
    receipt.digest = enc.digest (row.op.payload.forOperation row.op.id) ∧
    receipt.deadlineUnixMs = row.op.payload.deadlineUnixMs ∧
    receipt.outputLimit = row.op.payload.outputLimit
  consistent : Consistent row.op receipt

inductive History (enc : CommandEncoding) (row : ExecuteRow) : Prop where
  | undispatched (count : row.op.attemptCount = 0) (receipts : row.op.attemptReceipts = [])
      (status : row.op.status ≠ .unknown)
  | dispatched (intent : ExecuteEvidence) (count : row.op.attemptCount = 1)
      (receipts : row.op.attemptReceipts = [intent]) (own : Intent enc row intent)
      (live : row.op.status.Live)
  | fenced (intent fence : ExecuteEvidence) (count : row.op.attemptCount = 1)
      (receipts : row.op.attemptReceipts = [intent, fence]) (own : Intent enc row intent)
      (phase : fence.phase = .commandFencedBeforeStart) (receiptless : fence.guestReceipt = none)
      (terminal : row.op.status.Terminal)
  | observed (intent observed : ExecuteEvidence) (receipt : Receipt)
      (count : row.op.attemptCount = 1) (receipts : row.op.attemptReceipts = [intent, observed])
      (own : Intent enc row intent) (seen : Observed enc row observed receipt)

structure ExecuteInv (enc : CommandEncoding) (row : ExecuteRow) : Prop where
  kind : row.op.kind = .execute
  pinned : row.op.executionAllocationId = some row.allocation.id
  owned : row.allocation.projectId = row.op.projectId ∧ row.allocation.sandboxId = row.op.sandboxId
  payload : row.op.payload.validate enc = .ok ()
  deadline : 0 < row.op.payload.deadlineUnixMs
  output : row.op.outputStatus = .none ∨ row.op.outputStatus = .pending
  history : History enc row

/-- Two rows of the same command: nothing that identifies it differs. -/
structure SameCommand (row row' : ExecuteRow) : Prop where
  allocation : row'.allocation = row.allocation
  id : row'.op.id = row.op.id
  project : row'.op.projectId = row.op.projectId
  sandbox : row'.op.sandboxId = row.op.sandboxId
  kind : row'.op.kind = row.op.kind
  payload : row'.op.payload = row.op.payload
  pinned : row'.op.executionAllocationId = row.op.executionAllocationId

theorem SameCommand.owner (same : SameCommand row row') {revision expires : ℤ} :
    row'.owner revision expires = row.owner revision expires := by
  unfold ExecuteRow.owner
  rw [same.allocation, same.id, same.project, same.sandbox]

theorem Intent.congr {intent : ExecuteEvidence} (own : Intent enc row intent)
    (same : SameCommand row row') : Intent enc row' intent := by
  obtain ⟨phase, digest, scope⟩ := own
  refine ⟨phase, ?_, ?_⟩
  · rw [same.payload, same.id]
    exact digest
  · rw [same.owner]
    exact scope

theorem Observed.congr {observed : ExecuteEvidence} {receipt : Receipt}
    (seen : Observed enc row observed receipt) (same : SameCommand row row')
    (consistent : Consistent row'.op receipt) : Observed enc row' observed receipt := by
  obtain ⟨phase, scope, simulated, guest, valid, command, _⟩ := seen
  refine ⟨phase, ?_, simulated, guest, valid, ?_, consistent⟩
  · rw [same.owner]
    exact scope
  · rw [same.payload, same.id, same.allocation]
    exact command

theorem ExecuteInv.congr (inv : ExecuteInv enc row) (same : SameCommand row row')
    (output : row'.op.outputStatus = .none ∨ row'.op.outputStatus = .pending)
    (history : History enc row') : ExecuteInv enc row' := by
  obtain ⟨kind, pinned, owned, payload, deadline, _, _⟩ := inv
  refine ⟨same.kind.trans kind, ?_, ?_, ?_, ?_, output, history⟩
  · rw [same.pinned, same.allocation]
    exact pinned
  · rw [same.allocation, same.project, same.sandbox]
    exact owned
  · rw [same.payload]
    exact payload
  · rw [same.payload]
    exact deadline

/-- A receipt of a row that still has no outcome leaves the outcome open. -/
theorem Consistent.open_ {op : ExecuteOperation} {receipt : Receipt} (consistent : Consistent op receipt)
    (live : op.status.Live) : receipt.state = .launchIntent ∨ receipt.state = .unknown := by
  unfold Consistent at consistent
  split at consistent <;> simp_all [Status.Live]

/-- The claim columns do not bear on which receipts a status goes with. -/
theorem Consistent.reclaim {op op' : ExecuteOperation} {receipt : Receipt}
    (consistent : Consistent op receipt) (status : op'.status = op.status)
    (phase : op'.phase = op.phase) (completed : op'.completedAt = op.completedAt) :
    Consistent op' receipt := by
  unfold Consistent at consistent ⊢
  rw [status, phase, completed]
  exact consistent

/-- A transaction that moves claim columns only: an undispatched row may start, no outcome moves. -/
theorem ExecuteInv.reclaim (inv : ExecuteInv enc row) (same : SameCommand row row')
    (count : row'.op.attemptCount = row.op.attemptCount)
    (receipts : row'.op.attemptReceipts = row.op.attemptReceipts)
    (phase : row'.op.phase = row.op.phase) (completed : row'.op.completedAt = row.op.completedAt)
    (output : row'.op.outputStatus = row.op.outputStatus)
    (status : row'.op.status = row.op.status ∨ row.op.status = .queued ∧ row'.op.status = .running) :
    ExecuteInv enc row' := by
  refine inv.congr same (by rw [output]; exact inv.output) ?_
  rcases inv.history with ⟨zero, empty, known⟩ | ⟨intent, one, list, own, live⟩ |
    ⟨intent, fence, one, list, own, fenced, receiptless, terminal⟩ |
    ⟨intent, observed, receipt, one, list, own, seen⟩
  · refine .undispatched (by rw [count, zero]) (by rw [receipts, empty]) ?_
    rcases status with status | ⟨_, status⟩
    · rw [status]
      exact known
    · rw [status]
      decide
  · refine .dispatched intent (by rw [count, one]) (by rw [receipts, list]) (own.congr same) ?_
    rcases status with status | ⟨_, status⟩
    · rw [status]
      exact live
    · exact .inl status
  · refine .fenced intent fence (by rw [count, one]) (by rw [receipts, list]) (own.congr same)
      fenced receiptless ?_
    rcases status with status | ⟨queued, _⟩
    · rw [status]
      exact terminal
    · rw [queued] at terminal
      exact absurd terminal (by decide)
  · refine .observed intent observed receipt (by rw [count, one]) (by rw [receipts, list])
      (own.congr same) (seen.congr same ?_)
    rcases status with status | ⟨queued, _⟩
    · exact seen.consistent.reclaim status phase completed
    · have consistent := seen.consistent
      unfold Consistent at consistent
      rw [queued] at consistent
      simp at consistent

theorem executeContext_ok {ctx : ExecuteContext} (h : executeContext enc row claim now = .ok ctx) :
    row.op.Fenced claim now ∧ ctx.command = row.op.payload.forOperation row.op.id ∧
      ctx.digest = enc.digest (row.op.payload.forOperation row.op.id) ∧
      ∃ expires, ctx.owner = row.owner claim.revision expires := by
  unfold executeContext at h
  obtain ⟨_, fenced, h⟩ := bind_ok.mp h
  obtain ⟨_, _, h⟩ := bind_ok.mp h
  obtain ⟨_, _, h⟩ := bind_ok.mp h
  obtain ⟨_, _, h⟩ := bind_ok.mp h
  obtain ⟨_, _, h⟩ := bind_ok.mp h
  rw [← pure_ok.mp h]
  exact ⟨ensure_ok.mp fenced, rfl, rfl, _, rfl⟩

theorem sameScope_owner {revision expires revision' expires' : ℤ} :
    SameScope (row.owner revision expires) (row.owner revision' expires') :=
  ⟨rfl, rfl, rfl, rfl, rfl, rfl, rfl⟩

/-- A transaction of the claim holder that settles a row nobody dispatched. -/
theorem ExecuteInv.settle_undispatched {status : Status} {phase : ExecutePhase}
    (inv : ExecuteInv enc row) (zero : row.op.attemptCount = 0) (empty : row.op.attemptReceipts = [])
    (known : status ≠ .unknown) (same : SameCommand row row')
    (settled : ∃ revision, row'.op = { row.op.settle status phase now with claimRevision := revision }) :
    ExecuteInv enc row' := by
  obtain ⟨revision, settled⟩ := settled
  refine inv.congr same (by rw [settled]; exact inv.output) (.undispatched ?_ ?_ ?_)
  · rw [settled]
    exact zero
  · rw [settled]
    exact empty
  · rw [settled]
    exact known

theorem prepareExecute_keeps {host : HostId} {epoch : ℤ} {authority : Authority}
    {action : ExecuteAction} (inv : ExecuteInv enc row)
    (h : prepareExecute enc row claim host epoch authority now = .ok (row', action)) :
    ExecuteInv enc row' := by
  unfold prepareExecute at h
  obtain ⟨ctx, found, h⟩ := bind_ok.mp h
  obtain ⟨fenced, _, digest, expires, owner⟩ := executeContext_ok found
  split at h
  · obtain ⟨_, _, h⟩ := bind_ok.mp h
    cases pure_ok.mp h
    exact inv
  next fresh =>
    have zero : row.op.attemptCount = 0 ∧ row.op.attemptReceipts = [] := by
      rcases inv.history with ⟨zero, empty, _⟩ | ⟨_, one, _⟩ | ⟨_, _, one, _⟩ | ⟨_, _, _, one, _⟩
      · exact ⟨zero, empty⟩
      all_goals exact absurd (.inl (by omega)) fresh
    split at h
    · obtain ⟨_, _, h⟩ := bind_ok.mp h
      cases pure_ok.mp h
      exact inv.settle_undispatched zero.1 zero.2 (by decide) ⟨rfl, rfl, rfl, rfl, rfl, rfl, rfl⟩
        ⟨_, rfl⟩
    obtain ⟨_, _, h⟩ := bind_ok.mp h
    split at h
    · obtain ⟨_, _, h⟩ := bind_ok.mp h
      obtain ⟨_, _, h⟩ := bind_ok.mp h
      cases pure_ok.mp h
      refine inv.congr ⟨rfl, rfl, rfl, rfl, rfl, rfl, rfl⟩ inv.output
        (.dispatched _ rfl rfl ⟨rfl, congrArg some digest, ?_⟩ fenced.2.2.2)
      rw [owner]
      exact sameScope_owner
    · cases pure_ok.mp h
      exact inv.settle_undispatched zero.1 zero.2 (by decide) ⟨rfl, rfl, rfl, rfl, rfl, rfl, rfl⟩
        ⟨_, rfl⟩

theorem checkObservation_ok {ctx : ExecuteContext} {previous : Option ExecuteEvidence}
    {o : CommandObservation} {allowSimulated : Bool}
    (h : checkObservation row ctx previous (some o) allowSimulated now = .ok ()) :
    ¬(o.notStarted = true ∧ o.receipt ≠ none) ∧
      ∀ receipt ∈ o.receipt, checkReceipt row ctx previous receipt = .ok () := by
  unfold checkObservation at h
  obtain ⟨_, _, h⟩ := bind_ok.mp h
  obtain ⟨_, owned, h⟩ := bind_ok.mp h
  obtain ⟨_, _, h⟩ := bind_ok.mp h
  obtain ⟨_, _, h⟩ := bind_ok.mp h
  refine ⟨(ensure_ok.mp owned).2.2, fun receipt found => ?_⟩
  rw [found] at h
  exact h

/-- An accepted receipt becomes evidence of this command, consistent with the outcome it sets. -/
theorem observed_of_check {ctx : ExecuteContext} {previous : Option ExecuteEvidence} {receipt : Receipt}
    {o : CommandObservation} {expires : ℤ} {op : ExecuteOperation}
    (owner : ctx.owner = row.owner claim.revision expires)
    (command : ctx.command = row.op.payload.forOperation row.op.id)
    (digest : ctx.digest = enc.digest (row.op.payload.forOperation row.op.id))
    (checked : checkReceipt row ctx previous receipt = .ok ())
    (consistent : Consistent op receipt)
    (same : SameCommand row { row with op }) :
    Observed enc { row with op } (observedEvidence ctx o receipt) receipt := by
  unfold checkReceipt at checked
  obtain ⟨valid, checked⟩ := seq_ok.mp checked
  obtain ⟨fields, _⟩ := seq_ok.mp checked
  obtain ⟨id, allocation, generation, sameDigest, deadline, limit⟩ := ensure_ok.mp fields
  refine ⟨rfl, ?_, Option.some_ne_none _, rfl, mapError_ok.mp valid, ?_, consistent⟩
  · show SameScope ctx.owner _
    rw [owner, same.owner]
    exact sameScope_owner
  · rw [same.payload, same.id]
    refine ⟨id, allocation, ?_, sameDigest.trans digest, ?_, ?_⟩
    · rw [generation, owner]
      rfl
    · rw [deadline, command]
      rfl
    · rw [limit, command]
      rfl

/-- The outcome that a receipt sets is one that the lookup knows for it. -/
theorem outcome_consistent {op : ExecuteOperation} {receipt : Receipt} {notStarted : Bool}
    (cancellation : Bool) (started : notStarted = false)
    (status : op.status = (outcome (some receipt) notStarted cancellation).1)
    (phase : op.phase = (outcome (some receipt) notStarted cancellation).2)
    (completed : op.completedAt = if op.status.Terminal then some now else none) :
    Consistent op receipt := by
  subst started
  rw [status] at completed
  unfold Consistent
  rw [status, phase]
  cases state : receipt.state with
  | exited =>
    by_cases zero : receipt.exitCode = some 0
    · simp_all [outcome, Status.Terminal]
    · simp_all [outcome, Status.Terminal]
  | launchIntent | timedOut | cancelled | unknown => simp_all [outcome, Status.Terminal]

theorem outcome_none {cancellation : Bool} :
    outcome none false cancellation = (.unknown, .reconciling) := rfl

/-- Nothing new was learned: the row waits for reconciliation with the evidence it had. -/
theorem ExecuteInv.unknown {revision expires : ℤ} (now : Time) (inv : ExecuteInv enc row)
    (live : row.op.status.Live) (intended : validateIntent row.op (row.owner revision expires)
      (enc.digest (row.op.payload.forOperation row.op.id)) = .ok ())
    (same : SameCommand row row')
    (settled : row'.op = { row.op.settle .unknown .reconciling now with
      attemptReceipts := row.op.attemptReceipts.head?.toList ++ (row.op.attemptReceipts[1]?).toList }) :
    ExecuteInv enc row' := by
  have output : row'.op.outputStatus = row.op.outputStatus := by rw [settled]; rfl
  have count : row'.op.attemptCount = row.op.attemptCount := by rw [settled]; rfl
  refine inv.congr same (by rw [output]; exact inv.output) ?_
  rcases inv.history with ⟨zero, empty, known⟩ | ⟨intent, one, list, own, _⟩ |
    ⟨_, _, _, _, _, _, _, terminal⟩ | ⟨intent, observed, receipt, one, list, own, seen⟩
  · unfold validateIntent at intended
    rw [empty] at intended
    cases intended
  · refine .dispatched intent (count.trans one) ?_ (own.congr same) ?_
    · rw [settled, list]
      rfl
    · rw [settled]
      exact .inr rfl
  · exact absurd terminal (Status.not_terminal_of_live live)
  · refine .observed intent observed receipt (count.trans one) ?_ (own.congr same) (seen.congr same ?_)
    · rw [settled, list]
      rfl
    · rw [settled]
      rcases seen.consistent.open_ live with state | state
      · simp [Consistent, ExecuteOperation.settle, state, Status.Terminal]
      · simp [Consistent, ExecuteOperation.settle, state, Status.Terminal]

theorem intended_of_inv {owner : Ownership} {digest : Digest} (inv : ExecuteInv enc row)
    (intended : validateIntent row.op owner digest = .ok ()) :
    row.op.attemptCount = 1 ∧ ∃ intent, row.op.attemptReceipts.head? = some intent ∧
      Intent enc row intent := by
  unfold validateIntent at intended
  obtain ⟨recorded, head, intended⟩ := bind_ok.mp intended
  have one := (ensure_ok.mp intended).1
  refine ⟨one, recorded, okOr_ok.mp head, ?_⟩
  have found := okOr_ok.mp head
  rcases inv.history with ⟨zero, _, _⟩ | ⟨intent, _, list, own, _⟩ |
    ⟨intent, _, _, list, own, _⟩ | ⟨intent, _, _, _, list, own, _⟩
  · omega
  all_goals
    rw [list] at found
    cases found
    exact own

theorem observe_output {op : ExecuteOperation}
    (output : op.outputStatus = .none ∨ op.outputStatus = .pending) (ctx : ExecuteContext)
    (observation : Option CommandObservation) (cancellation : Bool) (now : Time) :
    (op.observe ctx observation cancellation now).outputStatus = .none ∨
      (op.observe ctx observation cancellation now).outputStatus = .pending := by
  unfold ExecuteOperation.observe
  dsimp only
  split
  · exact .inr rfl
  · exact output

theorem finishExecuteObservation_keeps {observation : Option CommandObservation}
    {allowSimulated : Bool} (inv : ExecuteInv enc row)
    (h : finishExecuteObservation enc row claim observation allowSimulated now = .ok row') :
    ExecuteInv enc row' := by
  unfold finishExecuteObservation at h
  obtain ⟨ctx, found, h⟩ := bind_ok.mp h
  obtain ⟨fenced, command, digest, expires, owner⟩ := executeContext_ok found
  obtain ⟨_, intended, h⟩ := bind_ok.mp h
  obtain ⟨one, intent, head, own⟩ := intended_of_inv inv intended
  obtain ⟨_, checked, h⟩ := bind_ok.mp h
  have known : validateIntent row.op (row.owner claim.revision expires)
      (enc.digest (row.op.payload.forOperation row.op.id)) = .ok () := by
    rw [← owner, ← digest]
    exact intended
  rw [← pure_ok.mp h]
  have same : SameCommand row { row with op := row.op.observe ctx observation row.cancel.isSome now } :=
    ⟨rfl, rfl, rfl, rfl, rfl, rfl, rfl⟩
  have output := observe_output inv.output ctx observation row.cancel.isSome now
  cases observation with
  | none => exact inv.unknown now fenced.2.2.2 known same rfl
  | some o =>
    obtain ⟨exclusive, receipts⟩ := checkObservation_ok checked
    have evidence (next : ExecuteEvidence) (chosen : nextEvidence ctx row.op.attemptReceipts[1]? (some o) = some next) :
        (row.op.observe ctx (some o) row.cancel.isSome now).attemptReceipts = [intent, next] := by
      show row.op.attemptReceipts.head?.toList ++ (nextEvidence ctx _ (some o)).toList = _
      rw [head, chosen]
      rfl
    cases receipt : o.receipt with
    | some r =>
      have started : o.notStarted = false := by
        by_contra other
        exact exclusive ⟨by simpa using other, by rw [receipt]; exact Option.some_ne_none r⟩
      have consistent : Consistent (row.op.observe ctx (some o) row.cancel.isSome now) r := by
        refine outcome_consistent row.cancel.isSome started ?_ ?_ rfl
        · show (outcome o.receipt _ _).1 = _
          rw [receipt]
          rfl
        · show (outcome o.receipt _ _).2 = _
          rw [receipt]
          rfl
      exact inv.congr same output (.observed intent (observedEvidence ctx o r) r one
        (evidence _ (by simp only [nextEvidence, receipt])) (own.congr same)
        (observed_of_check owner command digest (receipts r receipt) consistent same))
    | none =>
      cases started : o.notStarted with
      | false =>
        refine inv.unknown now fenced.2.2.2 known same ?_
        simp only [ExecuteOperation.observe, nextEvidence, receipt, started, Option.bind_some,
          Option.any_some, outcome_none]
        rfl
      | true =>
        refine inv.congr same output (.fenced intent (fencedEvidence ctx o) one
          (evidence _ (by simp [nextEvidence, receipt, started])) (own.congr same) rfl rfl ?_)
        show (outcome o.receipt o.notStarted _).1.Terminal
        rw [receipt, started]
        cases row.cancel.isSome <;> decide

theorem updateClaim_ok {allowed : Prop} [Decidable allowed] {op : Operation}
    (h : updateClaim row allowed op = .ok row') :
    allowed ∧ row' = { row with op := { row.op with toOperation := op } } := by
  unfold updateClaim at h
  obtain ⟨_, checked, h⟩ := bind_ok.mp h
  exact ⟨ensure_ok.mp checked, (pure_ok.mp h).symm⟩

theorem claimExecute_keeps {lease : ℤ} (inv : ExecuteInv enc row)
    (h : claimExecute row lease now = .ok row') : ExecuteInv enc row' := by
  obtain ⟨_, rfl⟩ := updateClaim_ok h
  refine inv.reclaim ⟨rfl, rfl, rfl, rfl, rfl, rfl, rfl⟩ rfl rfl rfl rfl rfl ?_
  show (if _ then _ else _) = _ ∨ _ ∧ (if _ then _ else _) = _
  by_cases queued : row.op.status = .queued
  · exact .inr ⟨queued, if_pos queued⟩
  · exact .inl (if_neg queued)

theorem renewExecute_keeps {lease : ℤ} (inv : ExecuteInv enc row)
    (h : renewExecute row claim lease now = .ok row') : ExecuteInv enc row' := by
  obtain ⟨_, rfl⟩ := updateClaim_ok h
  exact inv.reclaim ⟨rfl, rfl, rfl, rfl, rfl, rfl, rfl⟩ rfl rfl rfl rfl rfl (.inl rfl)

theorem deferExecute_keeps {delay : ℤ} (inv : ExecuteInv enc row)
    (h : deferExecute row claim delay now = .ok row') : ExecuteInv enc row' := by
  obtain ⟨_, rfl⟩ := updateClaim_ok h
  exact inv.reclaim ⟨rfl, rfl, rfl, rfl, rfl, rfl, rfl⟩ rfl rfl rfl rfl rfl (.inl rfl)

/-- The row itself is left alone; only the cancellation beside it changes. -/
theorem ExecuteInv.cancel (inv : ExecuteInv enc row) (cancel : Option Operation) :
    ExecuteInv enc { row with cancel } :=
  inv.reclaim ⟨rfl, rfl, rfl, rfl, rfl, rfl, rfl⟩ rfl rfl rfl rfl rfl (.inl rfl)

theorem admitCancel_keeps {id : OperationId} (inv : ExecuteInv enc row)
    (h : admitCancel row id = .ok row') : ExecuteInv enc row' := by
  unfold admitCancel at h
  obtain ⟨_, _, h⟩ := bind_ok.mp h
  obtain ⟨_, _, h⟩ := bind_ok.mp h
  split at h
  · rw [← pure_ok.mp h]
    exact inv
  · rw [← pure_ok.mp h]
    exact inv.cancel _

theorem claimCancel_keeps {lease : ℤ} (inv : ExecuteInv enc row)
    (h : claimCancel row lease now = .ok row') : ExecuteInv enc row' := by
  unfold claimCancel at h
  obtain ⟨_, _, h⟩ := bind_ok.mp h
  obtain ⟨_, _, h⟩ := bind_ok.mp h
  rw [← pure_ok.mp h]
  exact inv.cancel _

theorem ExecuteInv.revoke (inv : ExecuteInv enc row) :
    ExecuteInv enc { row with op := row.op.revoke now } := by
  unfold ExecuteOperation.revoke
  split
  next undispatched =>
    exact inv.settle_undispatched undispatched.2.1 undispatched.2.2 (by decide)
      ⟨rfl, rfl, rfl, rfl, rfl, rfl, rfl⟩ ⟨_, rfl⟩
  · exact inv

theorem reconcileCancel_keeps (inv : ExecuteInv enc row)
    (h : reconcileCancel row claim now = .ok row') : ExecuteInv enc row' := by
  unfold reconcileCancel at h
  obtain ⟨_, _, h⟩ := bind_ok.mp h
  obtain ⟨_, _, h⟩ := bind_ok.mp h
  rw [← pure_ok.mp h]
  exact inv.revoke.cancel _

theorem assignRetention_keeps {period : ℤ} (inv : ExecuteInv enc row)
    (h : assignRetention row period = .ok row') : ExecuteInv enc row' := by
  unfold assignRetention at h
  obtain ⟨_, _, h⟩ := bind_ok.mp h
  obtain ⟨_, _, h⟩ := bind_ok.mp h
  rw [← pure_ok.mp h]
  exact inv.reclaim ⟨rfl, rfl, rfl, rfl, rfl, rfl, rfl⟩ rfl rfl rfl rfl rfl (.inl rfl)

theorem admitExecute_inv {r : ExecuteCommand} {id : OperationId} {allocation : PinnedAllocation}
    {clock : ℕ} (h : admitExecute enc r id allocation clock = some row) : ExecuteInv enc row := by
  simp only [admitExecute, guard, Option.bind_eq_bind, Option.bind_eq_some_iff] at h
  obtain ⟨_, valid, _, remaining, _, owned, h⟩ := h
  split at valid
  next valid_ =>
    split at remaining
    next window =>
      split at owned
      next own =>
        cases h
        refine ⟨rfl, rfl, own, valid_, ?_, .inl rfl, .undispatched rfl rfl (by show Status.queued ≠ _; decide)⟩
        show 0 < r.command.deadlineUnixMs
        have positive : 0 ≤ ms clock := Int.ediv_nonneg (Int.natCast_nonneg clock) (by decide)
        omega
      · cases owned
    · cases remaining
  · cases valid

end Rows

/-! ### Runs -/

inductive ExecuteEvent where
  | claimExecute (lease : ℤ) (now : Time)
  | renewExecute (claim : Claim) (lease : ℤ) (now : Time)
  | deferExecute (claim : Claim) (delay : ℤ) (now : Time)
  | prepareExecute (claim : Claim) (host : HostId) (epoch : ℤ) (authority : Authority) (now : Time)
  | finishExecuteObservation (claim : Claim) (observation : Option CommandObservation)
      (allowSimulated : Bool) (now : Time)
  | admitCancel (id : OperationId)
  | claimCancel (lease : ℤ) (now : Time)
  | reconcileCancel (claim : Claim) (now : Time)
  | assignRetention (period : ℤ)

def executeStep (enc : CommandEncoding) (row : ExecuteRow) : ExecuteEvent → ExecuteRow
  | .claimExecute lease now => commit row (claimExecute row lease now)
  | .renewExecute claim lease now => commit row (renewExecute row claim lease now)
  | .deferExecute claim delay now => commit row (deferExecute row claim delay now)
  | .prepareExecute claim host epoch authority now =>
    commit row ((prepareExecute enc row claim host epoch authority now).map Prod.fst)
  | .finishExecuteObservation claim observation allowSimulated now =>
    commit row (finishExecuteObservation enc row claim observation allowSimulated now)
  | .admitCancel id => commit row (admitCancel row id)
  | .claimCancel lease now => commit row (claimCancel row lease now)
  | .reconcileCancel claim now => commit row (reconcileCancel row claim now)
  | .assignRetention period => commit row (assignRetention row period)

section Reachable
variable {enc : CommandEncoding} {row : ExecuteRow}

theorem executeStep_inv (row : ExecuteRow) (event : ExecuteEvent) (inv : ExecuteInv enc row) :
    ExecuteInv enc (executeStep enc row event) := by
  cases event with
  | claimExecute lease now => exact commit_keeps inv fun _ h => claimExecute_keeps inv h
  | renewExecute claim lease now => exact commit_keeps inv fun _ h => renewExecute_keeps inv h
  | deferExecute claim delay now => exact commit_keeps inv fun _ h => deferExecute_keeps inv h
  | prepareExecute claim host epoch authority now =>
    refine commit_keeps inv fun next h => ?_
    obtain ⟨⟨next, action⟩, prepared, rfl⟩ := map_ok.mp h
    exact prepareExecute_keeps inv prepared
  | finishExecuteObservation claim observation allowSimulated now =>
    exact commit_keeps inv fun _ h => finishExecuteObservation_keeps inv h
  | admitCancel id => exact commit_keeps inv fun _ h => admitCancel_keeps inv h
  | claimCancel lease now => exact commit_keeps inv fun _ h => claimCancel_keeps inv h
  | reconcileCancel claim now => exact commit_keeps inv fun _ h => reconcileCancel_keeps inv h
  | assignRetention period => exact commit_keeps inv fun _ h => assignRetention_keeps inv h

theorem admitted_run_inv {r : ExecuteCommand} {id : OperationId} {allocation : PinnedAllocation}
    {clock : ℕ} (admitted : admitExecute enc r id allocation clock = some row)
    (events : List ExecuteEvent) : ExecuteInv enc (run (executeStep enc) row events) :=
  run_invariant executeStep_inv (admitExecute_inv admitted)

/-! ### What the lookup answers -/

/-- A recorded receipt is re-derived as the evidence it was recorded as. -/
theorem executionEvidence_observed {intent observed : ExecuteEvidence} {receipt : Receipt}
    (inv : ExecuteInv enc row) (one : row.op.attemptCount = 1)
    (list : row.op.attemptReceipts = [intent, observed]) (own : Intent enc row intent)
    (seen : Observed enc row observed receipt) :
    ∃ simulated, executionEvidence enc row =
      .ok { owner := row.outputOwner receipt, receipt, simulated } := by
  obtain ⟨phase, scope, simulated, guest, valid, ⟨id, allocation, generation, digest, deadline, limit⟩, _⟩ := seen
  obtain ⟨simulated, known⟩ := Option.ne_none_iff_exists'.mp simulated
  refine ⟨simulated, ?_⟩
  have intended : validateIntent row.op (row.owner 0 0)
      (enc.digest (row.op.payload.forOperation row.op.id)) = .ok () := by
    simp only [validateIntent, list, bind_ok, okOr_ok, ensure_ok]
    exact ⟨intent, rfl, one, own.digest, own.phase, own.scope⟩
  have both : SameScope observed.owner intent.owner := by
    obtain ⟨a, b, c, d, e, f, g⟩ := scope
    obtain ⟨a', b', c', d', e', f', g'⟩ := own.scope
    exact ⟨a.trans a'.symm, b.trans b'.symm, c.trans c'.symm, d.trans d'.symm, e.trans e'.symm,
      f.trans f'.symm, g.trans g'.symm⟩
  simp only [executionEvidence, bind_ok, okOr_ok, ensure_ok, mapError_ok, pure_ok]
  exact ⟨_, inv.pinned, (), ⟨rfl, inv.owned⟩, (), inv.payload, (), intended, intent, by rw [list]; rfl,
    observed, by rw [list]; rfl, (), ⟨by rw [list]; rfl, phase, both⟩, simulated, known, receipt, guest,
    (), valid, (), ⟨inv.kind, id, allocation, generation, digest, limit, deadline⟩, rfl⟩

/-- The scope of a valid receipt is refused for one reason only. -/
theorem scope_validate_iff {receipt : Receipt} (simulated : Bool) (inv : ExecuteInv enc row)
    (valid : receipt.validate = .ok ()) (deadline : receipt.deadlineUnixMs = row.op.payload.deadlineUnixMs)
    (limit : receipt.outputLimit = row.op.payload.outputLimit) :
    (StreamEvidence.scope { owner := row.outputOwner receipt, receipt, simulated }).validate = .ok () ↔
      receipt.context.bootId.toList.any Text.isControl = false := by
  obtain ⟨_, named, short⟩ := Receipt.validate_context valid
  have window := CommandInput.validate_limit inv.payload
  have later := inv.deadline
  have generation := row.allocation.generationPositive
  have epoch := row.allocation.epochPositive
  unfold LiveOutputScope.validate OutputOwner.validate
  simp only [StreamEvidence.scope, ExecuteRow.outputOwner, seq_ok, ensure_ok, deadline, limit]
  constructor
  · rintro ⟨checked, _⟩
    by_contra control
    exact checked (.inr (.inr (.inr (.inr (by simpa using control)))))
  · intro clean
    refine ⟨?_, trivial, later, window⟩
    rw [clean]
    rintro (bad | bad | bad | bad | bad)
    · omega
    · omega
    · exact named bad
    · omega
    · cases bad

/-- What a reader may rely on: the row is not called corrupt, and waiting is worth while. -/
def Conclusive (op : ExecuteOperation) (answer : Except OutputError (Option StreamView)) : Prop :=
  answer ≠ .error .corrupt ∧
    ∀ view, answer = .ok (some view) → view.source = .pending → ¬op.status.Terminal

/-- The rows the lookup has no proper answer for: a command that ended without ever being
dispatched, and one whose guest reported a boot identity with a control character. -/
def Obstructed (row : ExecuteRow) (view : AllocationView) (now : Time) : Prop :=
  (row.op.status.Terminal ∧ row.op.attemptCount = 0) ∨
    (view.Live row.allocation now ∧ ∃ observed ∈ row.op.attemptReceipts[1]?,
      ∃ r ∈ observed.guestReceipt, r.context.bootId.toList.any Text.isControl = true)

instance (row : ExecuteRow) (view : AllocationView) (now : Time) : Decidable (Obstructed row view now) :=
  inferInstanceAs (Decidable (_ ∨ _))

/-- The same for the part of the lookup after expiry and publication. -/
def Resolved (op : ExecuteOperation) (answer : Except OutputError StreamSource) : Prop :=
  answer ≠ .error .corrupt ∧ (answer = .ok .pending → ¬op.status.Terminal)

/-- The answer for an observed row, read off its receipt. -/
theorem resolveStream_observed {intent observed : ExecuteEvidence} {receipt : Receipt}
    (inv : ExecuteInv enc row) (one : row.op.attemptCount = 1)
    (list : row.op.attemptReceipts = [intent, observed]) (own : Intent enc row intent)
    (seen : Observed enc row observed receipt) (view : AllocationView) (now : Time) :
    ∃ simulated, resolveStream enc row view now =
      if view.Live row.allocation now then do
        (StreamEvidence.scope { owner := row.outputOwner receipt, receipt, simulated }).validate.mapError
          fun _ => OutputError.corrupt
        pure (.live (StreamEvidence.scope { owner := row.outputOwner receipt, receipt, simulated }) simulated)
      else .ok .missing := by
  obtain ⟨simulated, evidence⟩ := executionEvidence_observed inv one list own seen
  refine ⟨simulated, ?_⟩
  have phase : observed.phase ≠ .commandFencedBeforeStart := by
    rw [seen.phase]
    decide
  unfold resolveStream
  rw [if_neg (by omega), seq_of_ok (ensure_ok.mpr one), list]
  simp only [if_neg phase, evidence]
  exact seq_of_ok (ensure_ok.mpr seen.consistent)

theorem resolveStream_iff (inv : ExecuteInv enc row) (view : AllocationView) (now : Time) :
    Resolved row.op (resolveStream enc row view now) ↔ ¬Obstructed row view now := by
  rcases inv.history with ⟨zero, empty, _⟩ | ⟨intent, one, list, own, live⟩ |
    ⟨intent, fence, one, list, own, fenced, receiptless, terminal⟩ |
    ⟨intent, observed, receipt, one, list, own, seen⟩
  · have answer : resolveStream enc row view now = .ok .pending := by
      unfold resolveStream
      rw [if_pos zero]
      rfl
    simp [Resolved, Obstructed, answer, zero, empty]
  · have answer : resolveStream enc row view now = .ok .pending := by
      unfold resolveStream
      rw [if_neg (by omega), seq_of_ok (ensure_ok.mpr one), list]
      rfl
    have waiting := Status.not_terminal_of_live live
    simp [Resolved, Obstructed, answer, waiting, list]
  · have answer : resolveStream enc row view now = .ok .missing := by
      unfold resolveStream
      rw [if_neg (by omega), seq_of_ok (ensure_ok.mpr one), list]
      simp only [fenced, if_true]
      rfl
    simp [Resolved, Obstructed, answer, one, list, receiptless]
  · obtain ⟨simulated, answer⟩ := resolveStream_observed inv one list own seen view now
    obtain ⟨_, _, _, _, deadline, limit⟩ := seen.command
    have scope := scope_validate_iff simulated inv seen.valid deadline limit
    have obstructed : Obstructed row view now ↔ view.Live row.allocation now ∧
        receipt.context.bootId.toList.any Text.isControl = true := by
      simp [Obstructed, one, list, seen.guestReceipt]
    rw [answer, obstructed]
    by_cases live : view.Live row.allocation now
    · rw [if_pos live]
      cases checked : (StreamEvidence.scope { owner := row.outputOwner receipt, receipt, simulated }).validate with
      | ok u =>
        have clean := scope.mp checked
        constructor
        · rintro _ ⟨_, control⟩
          rw [clean] at control
          cases control
        · intro _
          constructor <;> intro failed <;> cases failed
      | error e =>
        have control : receipt.context.bootId.toList.any Text.isControl = true := by
          by_contra clean
          rw [scope.mpr (by simpa using clean)] at checked
          cases checked
        constructor
        · rintro ⟨proper, _⟩
          exact absurd rfl proper
        · intro free
          exact absurd ⟨live, control⟩ free
    · rw [if_neg live]
      constructor
      · rintro _ ⟨alive, _⟩
        exact live alive
      · intro _
        constructor <;> intro failed <;> cases failed

theorem streamForProject_iff {outputForProject : ExecuteRow → Except OutputError (Option OutputView)}
    (inv : ExecuteInv enc row) (project : ProjectId) (operation : OperationId) (active : Bool)
    (view : AllocationView) (now : Time) :
    Conclusive row.op (streamForProject enc outputForProject row project operation active view now) ↔
      ¬(row.Visible project operation active ∧ ¬row.op.Expired now ∧ Obstructed row view now) := by
  have unpublished : row.op.outputStatus ≠ .published := by
    rcases inv.output with status | status <;> rw [status] <;> decide
  unfold streamForProject
  by_cases visible : row.Visible project operation active
  · rw [if_neg (not_not.mpr visible)]
    by_cases expired : row.op.Expired now
    · rw [if_pos expired]
      simp [Conclusive, expired, pure, Except.pure]
    · rw [if_neg expired, if_neg unpublished]
      have resolved := resolveStream_iff inv view now
      have carried : Conclusive row.op (resolveStream enc row view now >>= fun source =>
          pure (some { source, expiresAt := row.op.expiresAt })) ↔
          Resolved row.op (resolveStream enc row view now) := by
        cases resolveStream enc row view now with
        | error e => simp [Conclusive, Resolved, bind, Except.bind]
        | ok source => simp [Conclusive, Resolved, bind, Except.bind, pure, Except.pure]
      rw [carried, resolved]
      simp [visible, expired]
  · rw [if_pos visible]
    simp [Conclusive, visible, pure, Except.pure]

/-- In every row that the command transactions produce, the lookup answers properly exactly when
the row is hidden, expired, or none of the two kinds it has no answer for. -/
theorem stream_conclusive_iff
    {outputForProject : ExecuteRow → Except OutputError (Option OutputView)} {r : ExecuteCommand}
    {id operation : OperationId} {allocation : PinnedAllocation} {clock : ℕ} {project : ProjectId}
    {active : Bool} {view : AllocationView} {now : Time} {events : List ExecuteEvent}
    (admitted : admitExecute enc r id allocation clock = some row) :
    let reached := run (executeStep enc) row events
    Conclusive reached.op
        (streamForProject enc outputForProject reached project operation active view now) ↔
      ¬(reached.Visible project operation active ∧ ¬reached.op.Expired now ∧
        Obstructed reached view now) :=
  streamForProject_iff (admitted_run_inv admitted events) project operation active view now

end Reachable
/-! ### One command, cancelled early or answered by a strange guest -/

namespace CommandSample

def encoding : CommandEncoding where
  length _ := 0
  digest _ := Vector.replicate 32 0

def command : CommandInput :=
  { argv := ["true"], env := [], cwd := "/", deadlineUnixMs := 60000, outputLimit := 4096,
    expectedGeneration := none }

def allocation : PinnedAllocation :=
  { id := ⟨3⟩, projectId := ⟨1⟩, sandboxId := ⟨2⟩, hostId := ⟨4⟩, generation := 1,
    supervisorEpoch := 1, generationPositive := by decide, epochPositive := by decide }

def request : ExecuteCommand := { projectId := ⟨1⟩, sandboxId := ⟨2⟩, command }

def row : ExecuteRow where
  allocation := allocation
  cancel := none
  op :=
    { id := ⟨5⟩, projectId := ⟨1⟩, sandboxId := ⟨2⟩, kind := .execute, status := .queued,
      claimRevision := 0, leaseExpiresAt := none, nextRetryAt := none, attemptCount := 0,
      deadline := seconds 60, completedAt := none, payload := command,
      executionAllocationId := some ⟨3⟩, phase := .admitted, attemptReceipts := [],
      outputStatus := .none, outputExpiresAt := none, responseExpiresAt := none }

theorem admitted : admitExecute encoding request ⟨5⟩ allocation 1000000 = some row := by rfl

def cancelled : List ExecuteEvent :=
  [.admitCancel ⟨6⟩, .claimCancel 60 (seconds 3),
    .reconcileCancel { operationId := ⟨6⟩, revision := 1 } (seconds 4)]

def claim : Claim := { operationId := ⟨5⟩, revision := 1 }

def receipt (bootId : String) : Receipt :=
  { version := 1, context := { allocationId := ⟨3⟩, generation := 1, bootId }, operationId := ⟨5⟩,
    digest := Vector.replicate 32 0, state := .launchIntent, deadlineUnixMs := 60000,
    outputLimit := 4096, cancelRequested := false, cleanupConfirmed := false, exitCode := none,
    signal := none, stdout := {}, stderr := {}, reason := none }

def observation (bootId : String) : CommandObservation :=
  { ownership := some (row.owner 1 62000), commandDigest := Vector.replicate 32 0,
    notStarted := false, simulated := false, observedUnixMs := 4000, receipt := some (receipt bootId) }

def observed (bootId : String) : List ExecuteEvent :=
  [.claimExecute 60 (seconds 2),
    .prepareExecute claim ⟨4⟩ 1 { authorized := true, current := true, capacity := true, hostValid := true }
      (seconds 3),
    .finishExecuteObservation claim (some (observation bootId)) false (seconds 4)]

def view : AllocationView :=
  { status := .running, leaseExpiresAt := some (seconds 100), releasedAt := none, hostEpoch := 1 }

def lookup (events : List ExecuteEvent) : Except OutputError (Option StreamView) :=
  streamForProject encoding (fun _ => .ok none) (run (executeStep encoding) row events) ⟨1⟩ ⟨5⟩ true
    view (seconds 5)

/-- A command cancelled before dispatch keeps its reader waiting for ever, and a guest's control
character makes the row of a running command corrupt. -/
theorem terminal_pending_and_corrupt :
    (lookup cancelled = .ok (some { source := .pending, expiresAt := none }) ∧
      (run (executeStep encoding) row cancelled).op.status.Terminal) ∧
    lookup (observed "\x01") = .error .corrupt := by
  decide +kernel

theorem observed_conclusive :
    Conclusive (run (executeStep encoding) row (observed "boot")).op (lookup (observed "boot")) :=
  (stream_conclusive_iff admitted).mpr (by decide +kernel)

end CommandSample
end HudsonSandbox.Store
