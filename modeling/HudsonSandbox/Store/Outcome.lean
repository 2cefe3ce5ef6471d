import HudsonSandbox.Store.Compaction
import HudsonSandbox.Store.Dispatch

/-!
# The outcomes that execute rows record

What one transaction does to an execute row, and what every terminal row records of how it came to
its outcome: that it was never dispatched, that the host fenced it off, or what the guest reported.
-/

namespace HudsonSandbox.Store
open Checked GuestModel Command LiveOutput Run

/-- The outcomes that are set without a dispatch. -/
def BeforeDispatch (status : Status) (phase : ExecutePhase) : Prop :=
  status = .failed ∧ phase = .rejectedBeforeDispatch ∨
    status = .cancelled ∧ phase = .cancelledBeforeDispatch

theorem BeforeDispatch.terminal {status : Status} {phase : ExecutePhase}
    (before : BeforeDispatch status phase) : status.Terminal := by
  rcases before with ⟨failed, _⟩ | ⟨cancelled, _⟩
  · exact .inr (.inl failed)
  · exact .inr (.inr cancelled)

/-- The claim columns move: an undispatched row may start, no outcome is set. -/
structure Operation.Reclaims (op op' : Operation) : Prop where
  id : op'.id = op.id
  project : op'.projectId = op.projectId
  sandbox : op'.sandboxId = op.sandboxId
  kind : op'.kind = op.kind
  count : op'.attemptCount = op.attemptCount
  completed : op'.completedAt = op.completedAt
  status : op'.status = op.status ∨ op.status = .queued ∧ op'.status = .running

/-- What one transaction did to an execute row. -/
inductive ExecuteMoves (enc : CommandEncoding) (allowSimulated : Bool) (row row' : ExecuteRow) : Prop where
  | kept (op : row'.op = row.op)
  | retained (ended : row.op.status.Terminal) (expires : Time)
      (op : row'.op = { row.op with responseExpiresAt := some expires })
  | reclaimed (waiting : ¬row.op.status.Terminal) (next : Operation) (columns : row.op.Reclaims next)
      (op : row'.op = { row.op with toOperation := next })
  | unsent (waiting : ¬row.op.status.Terminal) (undispatched : row.op.attemptCount ≤ 0)
      (status : Status) (phase : ExecutePhase) (before : BeforeDispatch status phase) (revision : ℤ)
      (now : Time) (op : row'.op = { row.op.settle status phase now with claimRevision := revision })
  | dispatched (waiting : ¬row.op.status.Terminal) (undispatched : row.op.attemptCount ≤ 0)
      (intent : ExecuteEvidence)
      (op : row'.op =
        { row.op with phase := .executeDispatched, attemptCount := 1, attemptReceipts := [intent] })
  | observed (claim : Claim) (observation : Option CommandObservation) (now : Time)
      (h : finishExecuteObservation enc row claim observation allowSimulated now = .ok row')

section Moves
variable {enc : CommandEncoding} {allowSimulated : Bool} {row row' : ExecuteRow} {claim : Claim}
  {now : Time}

theorem Operation.Claimable.reclaims {op : Operation} {lease : ℤ} : op.Reclaims (op.claimNext lease now) := by
  refine ⟨rfl, rfl, rfl, rfl, rfl, rfl, ?_⟩
  show (if _ then _ else _) = _ ∨ _ ∧ (if _ then _ else _) = _
  by_cases queued : op.status = .queued
  · exact .inr ⟨queued, if_pos queued⟩
  · exact .inl (if_neg queued)

theorem prepareExecute_moves {host : HostId} {epoch : ℤ} {authority : Authority}
    {action : ExecuteAction}
    (h : prepareExecute enc row claim host epoch authority now = .ok (row', action)) :
    row'.allocation = row.allocation ∧ ExecuteMoves enc allowSimulated row row' := by
  unfold prepareExecute at h
  obtain ⟨ctx, found, h⟩ := bind_ok.mp h
  have waiting := Status.not_terminal_of_live (executeContext_ok found).1.2.2.2
  split at h
  · obtain ⟨_, _, h⟩ := bind_ok.mp h
    cases pure_ok.mp h
    exact ⟨rfl, .kept rfl⟩
  next fresh =>
    have undispatched : row.op.attemptCount ≤ 0 := by omega
    split at h
    · obtain ⟨_, _, h⟩ := bind_ok.mp h
      cases pure_ok.mp h
      exact ⟨rfl, .unsent waiting undispatched _ _ (.inr ⟨rfl, rfl⟩) _ now rfl⟩
    obtain ⟨_, _, h⟩ := bind_ok.mp h
    split at h
    · obtain ⟨_, _, h⟩ := bind_ok.mp h
      obtain ⟨_, _, h⟩ := bind_ok.mp h
      cases pure_ok.mp h
      exact ⟨rfl, .dispatched waiting undispatched _ rfl⟩
    · cases pure_ok.mp h
      exact ⟨rfl, .unsent waiting undispatched _ _ (.inl ⟨rfl, rfl⟩) _ now rfl⟩

theorem finishExecuteObservation_allocation {observation : Option CommandObservation}
    (h : finishExecuteObservation enc row claim observation allowSimulated now = .ok row') :
    row'.allocation = row.allocation := by
  unfold finishExecuteObservation at h
  obtain ⟨_, _, h⟩ := bind_ok.mp h
  obtain ⟨_, _, h⟩ := bind_ok.mp h
  obtain ⟨_, _, h⟩ := bind_ok.mp h
  rw [← pure_ok.mp h]

theorem reconcileCancel_moves (h : reconcileCancel row claim now = .ok row') :
    row'.allocation = row.allocation ∧ ExecuteMoves enc allowSimulated row row' := by
  have op := reconcileCancel_op h
  unfold reconcileCancel at h
  obtain ⟨_, _, h⟩ := bind_ok.mp h
  obtain ⟨_, _, h⟩ := bind_ok.mp h
  refine ⟨by rw [← pure_ok.mp h], ?_⟩
  unfold ExecuteOperation.revoke at op
  split at op
  next undispatched =>
    have waiting : ¬row.op.status.Terminal := by
      rcases undispatched.1 with queued | running
      · rw [queued]
        decide
      · rw [running]
        decide
    exact .unsent waiting undispatched.2.1.le _ _ (.inr ⟨rfl, rfl⟩) _ now op
  · exact .kept op

theorem assignRetention_moves {period : ℤ} (h : assignRetention row period = .ok row') :
    row'.allocation = row.allocation ∧ ExecuteMoves enc allowSimulated row row' := by
  unfold assignRetention at h
  obtain ⟨_, allowed, h⟩ := bind_ok.mp h
  obtain ⟨_, _, h⟩ := bind_ok.mp h
  rw [← pure_ok.mp h]
  exact ⟨rfl, .retained (ensure_ok.mp allowed).1 _ rfl⟩

/-- The cancellation beside the row is written, the row is not. -/
theorem admitCancel_allocation {id : OperationId} (h : admitCancel row id = .ok row') :
    row'.allocation = row.allocation := by
  unfold admitCancel at h
  obtain ⟨_, _, h⟩ := bind_ok.mp h
  obtain ⟨_, _, h⟩ := bind_ok.mp h
  split at h
  · rw [← pure_ok.mp h]
  · rw [← pure_ok.mp h]

theorem claimCancel_allocation {lease : ℤ} (h : claimCancel row lease now = .ok row') :
    row'.allocation = row.allocation := by
  unfold claimCancel at h
  obtain ⟨_, _, h⟩ := bind_ok.mp h
  obtain ⟨_, _, h⟩ := bind_ok.mp h
  rw [← pure_ok.mp h]

theorem executeStep_moves (row : ExecuteRow) (event : ExecuteEvent) :
    (executeStep enc row (event.under allowSimulated)).allocation = row.allocation ∧
      ExecuteMoves enc allowSimulated row (executeStep enc row (event.under allowSimulated)) := by
  have still : row.allocation = row.allocation ∧ ExecuteMoves enc allowSimulated row row :=
    ⟨rfl, .kept rfl⟩
  have keeps {result : Except DispatchError ExecuteRow}
      (moves : ∀ next, result = .ok next →
        next.allocation = row.allocation ∧ ExecuteMoves enc allowSimulated row next) :=
    commit_keeps (P := fun next : ExecuteRow =>
      next.allocation = row.allocation ∧ ExecuteMoves enc allowSimulated row next) still moves
  cases event with
  | claimExecute lease now =>
    refine keeps fun next h => ?_
    obtain ⟨claimable, rfl⟩ := updateClaim_ok h
    exact ⟨rfl, .reclaimed claimable.1 _ Operation.Claimable.reclaims rfl⟩
  | renewExecute claim lease now =>
    refine keeps fun next h => ?_
    obtain ⟨fenced, rfl⟩ := updateClaim_ok h
    exact ⟨rfl, .reclaimed (Status.not_terminal_of_live fenced.2.2.2) (row.op.renewClaim lease now)
      ⟨rfl, rfl, rfl, rfl, rfl, rfl, .inl rfl⟩ rfl⟩
  | deferExecute claim delay now =>
    refine keeps fun next h => ?_
    obtain ⟨fenced, rfl⟩ := updateClaim_ok h
    exact ⟨rfl, .reclaimed (Status.not_terminal_of_live fenced.2.2.2) (row.op.deferClaim delay now)
      ⟨rfl, rfl, rfl, rfl, rfl, rfl, .inl rfl⟩ rfl⟩
  | prepareExecute claim host epoch authority now =>
    refine keeps fun next h => ?_
    obtain ⟨_, prepared⟩ := map_fst_ok h
    exact prepareExecute_moves prepared
  | finishExecuteObservation claim observation other now =>
    exact keeps fun next h => ⟨finishExecuteObservation_allocation h, .observed claim observation now h⟩
  | admitCancel id =>
    exact keeps fun next h => ⟨admitCancel_allocation h, .kept (admitCancel_op h)⟩
  | claimCancel lease now =>
    exact keeps fun next h => ⟨claimCancel_allocation h, .kept (claimCancel_op h)⟩
  | reconcileCancel claim now => exact keeps fun next h => reconcileCancel_moves h
  | assignRetention period => exact keeps fun next h => assignRetention_moves h

/-- A terminal row is left alone, apart from the one assignment of its retention. -/
theorem ExecuteMoves.terminal (moves : ExecuteMoves enc allowSimulated row row')
    (ended : row.op.status.Terminal) :
    ∃ expires, row'.op = { row.op with responseExpiresAt := expires } := by
  cases moves with
  | kept op => exact ⟨row.op.responseExpiresAt, op⟩
  | retained _ expires op => exact ⟨some expires, op⟩
  | reclaimed waiting | unsent waiting | dispatched waiting => exact absurd ended waiting
  | observed claim observation now h =>
    unfold finishExecuteObservation at h
    obtain ⟨ctx, found, _⟩ := bind_ok.mp h
    exact absurd ended (Status.not_terminal_of_live (executeContext_ok found).1.2.2.2)

theorem ExecuteMoves.same (moves : ExecuteMoves enc allowSimulated row row')
    (allocation : row'.allocation = row.allocation) : SameCommand row row' := by
  cases moves with
  | kept op | retained _ _ op | dispatched _ _ _ op | unsent _ _ _ _ _ _ _ op =>
    constructor
    · exact allocation
    all_goals simp only [op, ExecuteOperation.settle]
  | reclaimed _ next columns op =>
    constructor
    · exact allocation
    all_goals rw [op]
    · exact columns.id
    · exact columns.project
    · exact columns.sandbox
    · exact columns.kind
  | observed claim observation now h =>
    unfold finishExecuteObservation at h
    obtain ⟨_, _, h⟩ := bind_ok.mp h
    obtain ⟨_, _, h⟩ := bind_ok.mp h
    obtain ⟨_, _, h⟩ := bind_ok.mp h
    rw [← pure_ok.mp h]
    exact ⟨rfl, rfl, rfl, rfl, rfl, rfl, rfl⟩

theorem executeStep_same (row : ExecuteRow) (event : ExecuteEvent) :
    SameCommand row (executeStep enc row (event.under allowSimulated)) := by
  obtain ⟨allocation, moves⟩ := @executeStep_moves enc allowSimulated row event
  exact moves.same allocation

end Moves

/-! ### What is recorded -/

/-- A report of the host that the deployment's policy admits. -/
def ExecuteEvidence.Admitted (allowSimulated : Bool) (evidence : ExecuteEvidence) : Prop :=
  ∃ simulated, evidence.simulated = some simulated ∧ (simulated = true → allowSimulated = true)

structure Fence (enc : CommandEncoding) (row : ExecuteRow) (fence : ExecuteEvidence) : Prop where
  phase : fence.phase = .commandFencedBeforeStart
  notStarted : fence.notStarted = true
  receiptless : fence.guestReceipt = none
  digest : fence.commandDigest = some (enc.digest (row.op.payload.forOperation row.op.id))
  scope : SameScope fence.owner (row.owner 0 0)
  outcome : row.op.status = .failed ∧ row.op.phase = .notStarted ∨
    row.op.status = .cancelled ∧ row.op.phase = .cancelledBeforeStart

/-- The row of a command whose output nobody collected yet. -/
structure Outcome (enc : CommandEncoding) (allowSimulated : Bool) (row : ExecuteRow) : Prop
    extends ExecuteInv enc row where
  ended : row.op.status.Terminal →
    row.op.completedAt ≠ none ∧ row.op.leaseExpiresAt = none ∧ row.op.nextRetryAt = none
  unsent : row.op.status.Terminal → row.op.attemptCount = 0 →
    BeforeDispatch row.op.status row.op.phase
  reported : ∀ e ∈ row.op.attemptReceipts[1]?, e.Admitted allowSimulated
  fenced : ∀ e ∈ row.op.attemptReceipts[1]?, e.phase ≠ .commandObserved → Fence enc row e
  collected : row.op.outputStatus = .pending ↔
    row.op.status.Terminal ∧ ∃ e ∈ row.op.attemptReceipts[1]?, e.phase = .commandObserved

section Outcomes
variable {enc : CommandEncoding} {allowSimulated : Bool} {row row' : ExecuteRow} {claim : Claim}
  {now : Time}

theorem Fence.congr {fence : ExecuteEvidence} (own : Fence enc row fence) (same : SameCommand row row')
    (status : row'.op.status = row.op.status) (phase : row'.op.phase = row.op.phase) :
    Fence enc row' fence := by
  refine ⟨own.phase, own.notStarted, own.receiptless, ?_, ?_, ?_⟩
  · rw [same.payload, same.id]
    exact own.digest
  · rw [same.owner]
    exact own.scope
  · rw [status, phase]
    exact own.outcome

/-- Before its outcome a row has nothing to collect. -/
theorem Outcome.waiting (inv : Outcome enc allowSimulated row) (waiting : ¬row.op.status.Terminal) :
    row.op.outputStatus = .none := by
  rcases inv.output with none | pending
  · exact none
  · exact absurd (inv.collected.mp pending).1 waiting

/-- A row that was not dispatched has no receipts at all. -/
theorem ExecuteInv.undispatched (inv : ExecuteInv enc row) (undispatched : row.op.attemptCount ≤ 0) :
    row.op.attemptCount = 0 ∧ row.op.attemptReceipts = [] := by
  rcases inv.history with ⟨zero, empty, _⟩ | ⟨_, one, _⟩ | ⟨_, _, one, _⟩ | ⟨_, _, _, one, _⟩
  · exact ⟨zero, empty⟩
  · omega
  · omega
  · omega

/-- The transaction left every column that the outcome is read from. -/
theorem Outcome.congr (inv : Outcome enc allowSimulated row) (next : ExecuteInv enc row')
    (same : SameCommand row row') (status : row'.op.status = row.op.status)
    (phase : row'.op.phase = row.op.phase) (completed : row'.op.completedAt = row.op.completedAt)
    (lease : row'.op.leaseExpiresAt = row.op.leaseExpiresAt)
    (retry : row'.op.nextRetryAt = row.op.nextRetryAt)
    (count : row'.op.attemptCount = row.op.attemptCount)
    (receipts : row'.op.attemptReceipts = row.op.attemptReceipts)
    (output : row'.op.outputStatus = row.op.outputStatus) : Outcome enc allowSimulated row' := by
  refine ⟨next, ?_, ?_, ?_, ?_, ?_⟩
  · rw [status, completed, lease, retry]
    exact inv.ended
  · rw [status, count, phase]
    exact inv.unsent
  · rw [receipts]
    exact inv.reported
  · rw [receipts]
    intro e found other
    exact (inv.fenced e found other).congr same status phase
  · rw [output, status, receipts]
    exact inv.collected

/-- A row that waits for its outcome only has to go on waiting. -/
theorem Outcome.still (inv : Outcome enc allowSimulated row) (next : ExecuteInv enc row')
    (waiting : ¬row.op.status.Terminal) (waiting' : ¬row'.op.status.Terminal)
    (receipts : ∀ e ∈ row'.op.attemptReceipts[1]?, e ∈ row.op.attemptReceipts[1]?)
    (output : row'.op.outputStatus = row.op.outputStatus) : Outcome enc allowSimulated row' := by
  refine ⟨next, fun ended => absurd ended waiting', fun ended => absurd ended waiting', ?_, ?_, ?_⟩
  · exact fun e found => inv.reported e (receipts e found)
  · intro e found other
    obtain ⟨failed, _⟩ | ⟨cancelled, _⟩ := (inv.fenced e (receipts e found) other).outcome
    · exact absurd (.inr (.inl failed)) waiting
    · exact absurd (.inr (.inr cancelled)) waiting
  · rw [output, inv.waiting waiting]
    constructor
    · intro collected
      cases collected
    · intro collected
      exact absurd collected.1 waiting'

theorem checkObservation_policy {ctx : ExecuteContext} {previous : Option ExecuteEvidence}
    {o : CommandObservation}
    (h : checkObservation row ctx previous (some o) allowSimulated now = .ok ()) :
    o.simulated = true → allowSimulated = true := by
  unfold checkObservation at h
  obtain ⟨_, policy, _⟩ := bind_ok.mp h
  exact ensure_ok.mp policy

/-- The bookkeeping columns of a row that was settled with a terminal status. -/
theorem settled_ended {op : Operation}
    (completed : op.completedAt = if op.status.Terminal then some now else none)
    (lease : op.leaseExpiresAt = none)
    (retry : op.nextRetryAt = if op.status.Terminal then none else some (now + seconds 1))
    (terminal : op.status.Terminal) :
    op.completedAt ≠ none ∧ op.leaseExpiresAt = none ∧ op.nextRetryAt = none := by
  rw [if_pos terminal] at completed retry
  rw [completed]
  exact ⟨Option.some_ne_none now, lease, retry⟩

section Observe
variable {ctx : ExecuteContext} {intent : ExecuteEvidence} {o : CommandObservation}

/-- Without a report the row waits for reconciliation and keeps the evidence it had. -/
theorem Outcome.unlearned {observation : Option CommandObservation} {cancellation : Bool}
    (inv : Outcome enc allowSimulated row) (waiting : ¬row.op.status.Terminal)
    (head : row.op.attemptReceipts.head? = some intent)
    (chosen : nextEvidence ctx row.op.attemptReceipts[1]? observation = row.op.attemptReceipts[1]?)
    (unknown : outcome (observation.bind CommandObservation.receipt)
      (observation.any CommandObservation.notStarted) cancellation = (.unknown, .reconciling))
    (next : ExecuteInv enc { row with op := row.op.observe ctx observation cancellation now }) :
    Outcome enc allowSimulated { row with op := row.op.observe ctx observation cancellation now } := by
  have status : (row.op.observe ctx observation cancellation now).status = .unknown :=
    congrArg Prod.fst unknown
  have waiting' : ¬(row.op.observe ctx observation cancellation now).status.Terminal := by
    rw [status]
    decide
  have list : (row.op.observe ctx observation cancellation now).attemptReceipts =
      intent :: (row.op.attemptReceipts[1]?).toList := by
    show row.op.attemptReceipts.head?.toList ++ (nextEvidence ctx _ observation).toList = _
    rw [head, chosen]
    rfl
  refine inv.still next waiting waiting' ?_ ?_
  · intro e seen
    simp only [list, List.getElem?_cons_succ] at seen
    cases second : row.op.attemptReceipts[1]? with
    | none => simp [second] at seen
    | some other => simpa [second] using seen
  · show (if _ then _ else _) = _
    rw [if_neg fun both => waiting' both.1]

/-- The second entry that a report leaves in the row. -/
theorem observe_second {cancellation : Bool} {evidence : ExecuteEvidence}
    (head : row.op.attemptReceipts.head? = some intent)
    (chosen : nextEvidence ctx row.op.attemptReceipts[1]? (some o) = some evidence) :
    (row.op.observe ctx (some o) cancellation now).attemptReceipts[1]? = some evidence := by
  have list : (row.op.observe ctx (some o) cancellation now).attemptReceipts = [intent, evidence] := by
    show row.op.attemptReceipts.head?.toList ++ (nextEvidence ctx _ (some o)).toList = _
    rw [head, chosen]
    rfl
  rw [list]
  rfl

theorem Outcome.received {receipt : Receipt} {cancellation : Bool}
    (inv : Outcome enc allowSimulated row) (waiting : ¬row.op.status.Terminal)
    (one : row.op.attemptCount = 1) (head : row.op.attemptReceipts.head? = some intent)
    (found : o.receipt = some receipt) (policy : o.simulated = true → allowSimulated = true)
    (next : ExecuteInv enc { row with op := row.op.observe ctx (some o) cancellation now }) :
    Outcome enc allowSimulated { row with op := row.op.observe ctx (some o) cancellation now } := by
  have chosen : nextEvidence ctx row.op.attemptReceipts[1]? (some o) =
      some (observedEvidence ctx o receipt) := by
    simp only [nextEvidence, found]
  have second : (row.op.observe ctx (some o) cancellation now).attemptReceipts[1]? = _ :=
    observe_second head chosen
  refine ⟨next, settled_ended rfl rfl rfl, ?_, ?_, ?_, ?_⟩
  · intro _ zero
    have zero : row.op.attemptCount = 0 := zero
    omega
  · intro e seen
    rw [second] at seen
    cases seen
    exact ⟨o.simulated, rfl, policy⟩
  · intro e seen other
    rw [second] at seen
    cases seen
    exact absurd rfl other
  · have output : (row.op.observe ctx (some o) cancellation now).outputStatus =
        if (row.op.observe ctx (some o) cancellation now).status.Terminal ∧
          (some o).bind CommandObservation.receipt ≠ none then .pending else row.op.outputStatus := rfl
    rw [output, second]
    by_cases ended : (row.op.observe ctx (some o) cancellation now).status.Terminal
    · have both : (row.op.observe ctx (some o) cancellation now).status.Terminal ∧
          (some o).bind CommandObservation.receipt ≠ none := by
        refine ⟨ended, ?_⟩
        show o.receipt ≠ none
        rw [found]
        exact Option.some_ne_none receipt
      rw [if_pos both]
      exact ⟨fun _ => ⟨ended, _, rfl, rfl⟩, fun _ => rfl⟩
    · rw [if_neg fun both => ended both.1, inv.waiting waiting]
      constructor
      · intro collected
        cases collected
      · intro collected
        exact absurd collected.1 ended

theorem Outcome.fencedOff {cancellation : Bool} {revision expires : ℤ}
    (inv : Outcome enc allowSimulated row) (waiting : ¬row.op.status.Terminal)
    (one : row.op.attemptCount = 1) (head : row.op.attemptReceipts.head? = some intent)
    (owner : ctx.owner = row.owner revision expires)
    (digest : ctx.digest = enc.digest (row.op.payload.forOperation row.op.id))
    (unsent : o.receipt = none) (notStarted : o.notStarted = true)
    (policy : o.simulated = true → allowSimulated = true)
    (next : ExecuteInv enc { row with op := row.op.observe ctx (some o) cancellation now }) :
    Outcome enc allowSimulated { row with op := row.op.observe ctx (some o) cancellation now } := by
  have chosen : nextEvidence ctx row.op.attemptReceipts[1]? (some o) = some (fencedEvidence ctx o) := by
    simp [nextEvidence, unsent, notStarted]
  have second : (row.op.observe ctx (some o) cancellation now).attemptReceipts[1]? = _ :=
    observe_second head chosen
  refine ⟨next, settled_ended rfl rfl rfl, ?_, ?_, ?_, ?_⟩
  · intro _ zero
    have zero : row.op.attemptCount = 0 := zero
    omega
  · intro e seen
    rw [second] at seen
    cases seen
    exact ⟨o.simulated, rfl, policy⟩
  · intro e seen _
    rw [second] at seen
    cases seen
    refine ⟨rfl, rfl, rfl, congrArg some digest, ?_, ?_⟩
    · show SameScope ctx.owner _
      rw [owner]
      exact sameScope_owner
    · show (outcome o.receipt o.notStarted _).1 = _ ∧ (outcome o.receipt o.notStarted _).2 = _ ∨
        (outcome o.receipt o.notStarted _).1 = _ ∧ (outcome o.receipt o.notStarted _).2 = _
      rw [unsent, notStarted]
      cases cancellation with
      | false => exact .inl ⟨rfl, rfl⟩
      | true => exact .inr ⟨rfl, rfl⟩
  · have uncollected : ¬((outcome o.receipt o.notStarted cancellation).1.Terminal ∧ o.receipt ≠ none) :=
      fun both => both.2 unsent
    show (if (outcome o.receipt o.notStarted cancellation).1.Terminal ∧ o.receipt ≠ none then _ else _) = _ ↔ _
    rw [if_neg uncollected, inv.waiting waiting, second]
    constructor
    · intro collected
      cases collected
    · rintro ⟨_, e, seen, phase⟩
      cases seen
      cases phase

end Observe

theorem Outcome.observe {observation : Option CommandObservation}
    (inv : Outcome enc allowSimulated row)
    (h : finishExecuteObservation enc row claim observation allowSimulated now = .ok row') :
    Outcome enc allowSimulated row' := by
  have next := finishExecuteObservation_keeps inv.toExecuteInv h
  unfold finishExecuteObservation at h
  obtain ⟨ctx, found, h⟩ := bind_ok.mp h
  obtain ⟨fenced, _, digest, expires, owner⟩ := executeContext_ok found
  obtain ⟨_, intended, h⟩ := bind_ok.mp h
  obtain ⟨one, intent, head, _⟩ := intended_of_inv inv.toExecuteInv intended
  obtain ⟨_, checked, h⟩ := bind_ok.mp h
  have waiting := Status.not_terminal_of_live fenced.2.2.2
  rw [← pure_ok.mp h] at next ⊢
  cases observation with
  | none => exact inv.unlearned waiting head rfl rfl next
  | some o =>
    have policy := checkObservation_policy checked
    cases receipt : o.receipt with
    | some r => exact inv.received waiting one head receipt policy next
    | none =>
      cases started : o.notStarted with
      | true => exact inv.fencedOff waiting one head owner digest receipt started policy next
      | false =>
        refine inv.unlearned waiting head ?_ ?_ next
        · simp [nextEvidence, receipt, started]
        · simp [receipt, started, outcome_none]

/-- Whatever a transaction does, the row records its outcome. -/
theorem Outcome.moves (inv : Outcome enc allowSimulated row) (next : ExecuteInv enc row')
    (allocation : row'.allocation = row.allocation)
    (moves : ExecuteMoves enc allowSimulated row row') : Outcome enc allowSimulated row' := by
  have same := moves.same allocation
  cases moves with
  | kept op =>
    refine inv.congr next same ?_ ?_ ?_ ?_ ?_ ?_ ?_ ?_
    all_goals rw [op]
  | retained _ expires op =>
    refine inv.congr next same ?_ ?_ ?_ ?_ ?_ ?_ ?_ ?_
    all_goals rw [op]
  | reclaimed waiting claimed columns op =>
    have waiting' : ¬row'.op.status.Terminal := by
      rw [op]
      rcases columns.status with status | ⟨_, running⟩
      · rw [status]
        exact waiting
      · rw [running]
        decide
    refine inv.still next waiting waiting' ?_ ?_
    · rw [op]
      exact fun e seen => seen
    · rw [op]
  | unsent waiting undispatched status phase before revision now op =>
    obtain ⟨zero, empty⟩ := inv.undispatched undispatched
    have second : row'.op.attemptReceipts[1]? = none := by
      rw [op]
      show row.op.attemptReceipts[1]? = none
      rw [empty]
      rfl
    refine ⟨next, ?_, ?_, ?_, ?_, ?_⟩
    · rw [op]
      exact settled_ended rfl rfl rfl
    · rw [op]
      exact fun _ _ => before
    · rw [second]
      exact fun e seen => by cases seen
    · rw [second]
      exact fun e seen => by cases seen
    · have output : row'.op.outputStatus = .none := by
        rw [op]
        exact inv.waiting waiting
      rw [output, second]
      constructor
      · intro collected
        cases collected
      · rintro ⟨_, e, seen, _⟩
        cases seen
  | dispatched waiting undispatched intent op =>
    have waiting' : ¬row'.op.status.Terminal := by
      rw [op]
      exact waiting
    refine inv.still next waiting waiting' ?_ ?_
    · rw [op]
      exact fun e seen => by cases seen
    · rw [op]
  | observed claim observation now h => exact inv.observe h

theorem executeStep_outcome (row : ExecuteRow) (event : ExecuteEvent)
    (inv : Outcome enc allowSimulated row) :
    Outcome enc allowSimulated (executeStep enc row (event.under allowSimulated)) := by
  obtain ⟨allocation, moves⟩ := executeStep_moves row event
  exact inv.moves (executeStep_inv row _ inv.toExecuteInv) allocation moves

theorem admitExecute_row {r : ExecuteCommand} {id : OperationId} {allocation : PinnedAllocation}
    {clock : ℕ} (h : admitExecute enc r id allocation clock = some row) :
    row.op.id = id ∧ row.op.payload = r.command ∧ row.op.outputStatus = .none := by
  simp only [admitExecute, guard, Option.bind_eq_bind, Option.bind_eq_some_iff] at h
  obtain ⟨_, _, _, _, _, _, h⟩ := h
  cases h
  exact ⟨rfl, rfl, rfl⟩

theorem admitExecute_outcome {r : ExecuteCommand} {id : OperationId} {allocation : PinnedAllocation}
    {clock : ℕ} (h : admitExecute enc r id allocation clock = some row) :
    Outcome enc allowSimulated row := by
  have inv := admitExecute_inv h
  simp only [admitExecute, guard, Option.bind_eq_bind, Option.bind_eq_some_iff] at h
  obtain ⟨_, _, _, _, _, _, h⟩ := h
  cases h
  have queued : ¬Status.queued.Terminal := by decide
  refine ⟨inv, fun ended => absurd ended queued, fun ended => absurd ended queued, ?_, ?_, ?_⟩
  · exact fun e seen => by cases seen
  · exact fun e seen => by cases seen
  · constructor
    · intro collected
      cases collected
    · intro collected
      exact absurd collected.1 queued

end Outcomes
end HudsonSandbox.Store
