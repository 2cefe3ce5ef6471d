import HudsonSandbox.Store.Advances

/-!
# Dispatch decisions

The answers of the store on which a controller starts something on a host: the `Start` of a create
and the `Dispatch` of a command. Each is given at most once, whichever claims expire, are taken
over or lose their reply, and never to an operation that is recorded as never dispatched.
-/

namespace HudsonSandbox.Store
open Checked LiveOutput Supervisor AllocationAuthority Command Run

/-! ### Create -/

/-- The `Start` that a transaction answers, with the owner it is for and the lease it grants. -/
def starts (s : Lifecycle) : LifecycleEvent → Option (Ownership × Time)
  | .prepareCreateDispatch claim checks now =>
    match prepareCreateDispatch s claim checks now with
    | .ok (_, .start owner expires) => some (owner, expires)
    | _ => none
  | _ => none

/-- The allocation was released on the word that no create was ever sent. -/
def ReleasedUndispatched (s : Lifecycle) : Prop :=
  ∃ a ∈ s.allocation, a.releasedAt ≠ none ∧
    ∃ e ∈ a.releaseEvidence, e.phase = .rejectedBeforeDispatch

instance (s : Lifecycle) : Decidable (ReleasedUndispatched s) :=
  inferInstanceAs (Decidable (∃ a ∈ s.allocation, a.releasedAt ≠ none ∧ ∃ e ∈ a.releaseEvidence, _))

section Create
variable {allowSimulated : Bool} {c : OperationId} {s : Lifecycle}

/-- The create's row counts a committed dispatch intent. -/
def CreateAttempted (c : OperationId) (s : Lifecycle) : Prop :=
  ∃ op, s.op c = some op ∧ 0 < op.attemptCount

def CreateClosed (c : OperationId) (s : Lifecycle) : Prop :=
  ∃ op, s.op c = some op ∧ op.status.Terminal

theorem CreateAttempted.of_update {s' : Lifecycle} {op : LifecycleOperation}
    {change : LifecycleOperation → LifecycleOperation} (rows : s'.operations = s.updateOperation c change)
    (keeps : ∀ row, (change row).id = row.id) (found : s.op c = some op)
    (counted : 0 < (change op).attemptCount) : CreateAttempted c s' := by
  refine ⟨change op, ?_, counted⟩
  rw [op_update rows keeps, found]
  rfl

theorem starts_ok {event : LifecycleEvent} {answer : Ownership × Time}
    (h : starts s event = some answer) : ∃ claim checks now s', event = .prepareCreateDispatch claim checks now ∧
      prepareCreateDispatch s claim checks now = .ok (s', .start answer.1 answer.2) := by
  unfold starts at h
  split at h
  next claim checks now =>
    split at h
    next s' owner expires found =>
      cases h
      exact ⟨claim, checks, now, s', rfl, found⟩
    · cases h
  · cases h

/-- A `Start` finds the one create of the sandbox unattempted and leaves it attempted. -/
theorem prepareCreateDispatch_start {s' : Lifecycle} {claim : Claim} {checks : DispatchChecks}
    {now : Time} {owner : Ownership} {expires : Time} (inv : LifecycleInv False allowSimulated c s)
    (h : prepareCreateDispatch s claim checks now = .ok (s', .start owner expires)) :
    ∃ op, s.op c = some op ∧ op.status.Live ∧ op.attemptCount = 0 ∧ CreateAttempted c s' := by
  unfold prepareCreateDispatch at h
  obtain ⟨ctx, found, h⟩ := bind_ok.mp h
  have holds := contextAtEpoch_ok found
  have row := inv.rows _ _ holds.found
  have own : claim.operationId = c := by
    have id := op_id holds.found
    rcases row.kind with ⟨_, same⟩ | ⟨destroy, _⟩
    · exact id.symm.trans same
    · rw [holds.kind] at destroy
      cases destroy
  have counted := row.attempts
  split at h
  · cases pure_ok.mp h
  next fresh =>
    iterate 6 obtain ⟨_, _, h⟩ := bind_ok.mp h
    cases pure_ok.mp h
    have zero : ctx.op.attemptCount = 0 := by omega
    subst own
    refine ⟨ctx.op, holds.found, holds.fenced.2.2.2, zero, .of_update rfl (fun _ => rfl) holds.found ?_⟩
    show 0 < ctx.op.attemptCount + 1
    omega

theorem lifecycleStep_keeps (s : Lifecycle) (event : LifecycleEvent)
    (inv : LifecycleInv False allowSimulated c s) :
    LifecycleInv False allowSimulated c (lifecycleStep allowSimulated s event) :=
  lifecycleStep_inv s event inv False.elim

/-- The counted intent is the mark that every `Start` leaves. -/
theorem starts_marks : Marks (lifecycleStep allowSimulated) (LifecycleInv False allowSimulated c)
    starts (CreateAttempted c) := by
  refine ⟨⟨lifecycleStep_keeps, ?_, ?_⟩, ?_⟩
  · intro s event _ attempted
    obtain ⟨op, found, counted⟩ := attempted
    obtain ⟨op', kept, advances⟩ := lifecycleStep_advances s event 0 c op found
    exact ⟨op', kept, counted.trans_le advances.attempts⟩
  · intro s event answer inv answered attempted
    obtain ⟨claim, checks, now, s', rfl, found⟩ := starts_ok answered
    obtain ⟨op, stored, _, zero, _⟩ := prepareCreateDispatch_start inv found
    obtain ⟨again, same, counted⟩ := attempted
    rw [stored] at same
    cases same
    omega
  · intro s event answer inv answered
    obtain ⟨claim, checks, now, s', rfl, found⟩ := starts_ok answered
    obtain ⟨_, _, _, _, attempted⟩ := prepareCreateDispatch_start inv found
    simp only [lifecycleStep, found]
    exact attempted

/-- A create that is over is never started. -/
theorem starts_bars : Bars (lifecycleStep allowSimulated) (LifecycleInv False allowSimulated c)
    starts (CreateClosed c) := by
  refine ⟨lifecycleStep_keeps, ?_, ?_⟩
  · intro s event _ closed
    obtain ⟨op, found, done⟩ := closed
    obtain ⟨op', kept, advances⟩ := lifecycleStep_advances s event 0 c op found
    exact ⟨op', kept, advances.terminal done⟩
  · intro s event answer inv answered closed
    obtain ⟨claim, checks, now, s', rfl, found⟩ := starts_ok answered
    obtain ⟨op, stored, live, _, _⟩ := prepareCreateDispatch_start inv found
    obtain ⟨again, same, done⟩ := closed
    rw [stored] at same
    cases same
    exact Status.not_terminal_of_live live done

/-- The evidence of such a release names the create, unattempted and over. -/
theorem ReleasedUndispatched.create (inv : LifecycleInv False allowSimulated c s)
    (released : ReleasedUndispatched s) : ¬CreateAttempted c s ∧ CreateClosed c s := by
  obtain ⟨a, held, gone, e, evidence, phase⟩ := released
  obtain ⟨row, receipt, recorded, entry⟩ := (inv.allocation a held).released gone
  rw [recorded] at evidence
  cases evidence
  rcases entry.legitimate with rejected | confirmed
  · obtain ⟨_, own, _, zero, _, _⟩ := rejected
    have stored := entry.stored
    rw [own] at stored
    refine ⟨?_, row, stored, entry.finished.1⟩
    intro attempted
    obtain ⟨again, same, counted⟩ := attempted
    rw [stored] at same
    cases same
    omega
  · have other := confirmed.phase
    rw [phase] at other
    cases other

/-- Whatever the controllers, hosts and clocks do, a create is started at most once, and not at all,
before or after, where its allocation is released as undispatched. -/
theorem create_started_once {projectId : ProjectId} {sandboxId : SandboxId}
    {expiresAt : Option Time} {hostEpoch : HostId → ℤ} (before after : List LifecycleEvent) :
    let admitted := admitCreate projectId sandboxId c expiresAt hostEpoch
    let step := lifecycleStep allowSimulated
    (answers step starts admitted (before ++ after)).length ≤ 1 ∧
      (ReleasedUndispatched (run step admitted before) →
        answers step starts admitted (before ++ after) = []) := by
  intro admitted step
  have start : LifecycleInv False allowSimulated c admitted := admitCreate_inv
  refine ⟨starts_marks.answers_le_one start, ?_⟩
  intro released
  have reached : LifecycleInv False allowSimulated c (run step admitted before) :=
    run_invariant lifecycleStep_keeps start
  obtain ⟨unattempted, closed⟩ := released.create reached
  rw [answers_append, starts_marks.unanswered start unattempted, starts_bars.answers_nil reached closed]
  rfl

example : (answers (lifecycleStep false) starts LifecycleSample.start
    (LifecycleSample.launched ++ LifecycleSample.launched)).length = 1 := by decide +kernel

end Create

/-! ### Execute -/

/-- The `Dispatch` that a transaction answers, with its owner and command. -/
def dispatches (enc : GuestModel.CommandEncoding) (row : ExecuteRow) :
    ExecuteEvent → Option (Ownership × GuestModel.Execute)
  | .prepareExecute claim host epoch authority now =>
    match prepareExecute enc row claim host epoch authority now with
    | .ok (_, .dispatch owner command) => some (owner, command)
    | _ => none
  | _ => none

/-- The command is recorded as cancelled or rejected before it was dispatched. -/
def ExecuteOperation.NeverDispatched (op : ExecuteOperation) : Prop :=
  op.phase = .cancelledBeforeDispatch ∨ op.phase = .rejectedBeforeDispatch

instance (op : ExecuteOperation) : Decidable op.NeverDispatched := inferInstanceAs (Decidable (_ ∨ _))

section Execute
variable {enc : GuestModel.CommandEncoding} {row row' : ExecuteRow} {claim : Claim} {now : Time}

/-- What such a record means: no dispatch intent was ever committed, and the row is over. -/
structure DispatchInv (enc : GuestModel.CommandEncoding) (row : ExecuteRow) : Prop where
  inv : ExecuteInv enc row
  never : row.op.NeverDispatched → row.op.attemptCount = 0 ∧ row.op.status.Terminal

theorem dispatches_ok {event : ExecuteEvent} {answer : Ownership × GuestModel.Execute}
    (h : dispatches enc row event = some answer) : ∃ claim host epoch authority now row',
      event = .prepareExecute claim host epoch authority now ∧
        prepareExecute enc row claim host epoch authority now = .ok (row', .dispatch answer.1 answer.2) := by
  unfold dispatches at h
  split at h
  next claim host epoch authority now =>
    split at h
    next row' owner command found =>
      cases h
      exact ⟨claim, host, epoch, authority, now, row', rfl, found⟩
    · cases h
  · cases h

/-- What `prepare_execute` does to a row: nothing, a settlement before dispatch, or the dispatch. -/
theorem prepareExecute_cases {host : HostId} {epoch : ℤ} {authority : Authority} {action : ExecuteAction}
    (h : prepareExecute enc row claim host epoch authority now = .ok (row', action)) :
    row.op.status.Live ∧
      (row' = row ∧ (∀ owner command, action ≠ .dispatch owner command) ∨
        row.op.attemptCount ≤ 0 ∧ (∃ status phase, status.Terminal ∧
          row'.op = row.op.settle status phase now) ∧ action = .rejected ∨
        row.op.attemptCount ≤ 0 ∧ row'.op.attemptCount = 1 ∧ row'.op.phase = .executeDispatched) := by
  unfold prepareExecute at h
  obtain ⟨ctx, found, h⟩ := bind_ok.mp h
  refine ⟨(executeContext_ok found).1.2.2.2, ?_⟩
  split at h
  · obtain ⟨_, _, h⟩ := bind_ok.mp h
    cases pure_ok.mp h
    refine .inl ⟨rfl, fun owner command => ?_⟩
    split <;> simp
  next fresh =>
    have zero : row.op.attemptCount ≤ 0 := by omega
    split at h
    · obtain ⟨_, _, h⟩ := bind_ok.mp h
      cases pure_ok.mp h
      exact .inr (.inl ⟨zero, ⟨_, _, .inr (.inr rfl), rfl⟩, rfl⟩)
    obtain ⟨_, _, h⟩ := bind_ok.mp h
    split at h
    · obtain ⟨_, _, h⟩ := bind_ok.mp h
      obtain ⟨_, _, h⟩ := bind_ok.mp h
      cases pure_ok.mp h
      exact .inr (.inr ⟨zero, rfl, rfl⟩)
    · cases pure_ok.mp h
      exact .inr (.inl ⟨zero, ⟨_, _, .inr (.inl rfl), rfl⟩, rfl⟩)

theorem ExecuteInv.attempts (inv : ExecuteInv enc row) : 0 ≤ row.op.attemptCount := by
  rcases inv.history with ⟨zero, _, _⟩ | ⟨_, one, _⟩ | ⟨_, _, one, _⟩ | ⟨_, _, _, one, _⟩
  · omega
  · omega
  · omega
  · omega

/-- A transaction that leaves the phase and the count alone. -/
theorem DispatchInv.keep (inv : DispatchInv enc row) (next : ExecuteInv enc row')
    (phase : row'.op.phase = row.op.phase) (count : row'.op.attemptCount = row.op.attemptCount)
    (advances : row.op.Advances now row'.op.toOperation) : DispatchInv enc row' := by
  refine ⟨next, fun never => ?_⟩
  unfold ExecuteOperation.NeverDispatched at never
  rw [phase] at never
  obtain ⟨zero, terminal⟩ := inv.never never
  exact ⟨count.trans zero, advances.terminal terminal⟩

theorem prepareExecute_never {host : HostId} {epoch : ℤ} {authority : Authority} {action : ExecuteAction}
    (inv : DispatchInv enc row)
    (h : prepareExecute enc row claim host epoch authority now = .ok (row', action)) :
    DispatchInv enc row' := by
  refine ⟨prepareExecute_keeps inv.inv h, fun never => ?_⟩
  have counted := inv.inv.attempts
  obtain ⟨_, ⟨rfl, _⟩ | ⟨zero, ⟨status, phase, terminal, settled⟩, _⟩ | ⟨_, _, dispatched⟩⟩ :=
    prepareExecute_cases h
  · exact inv.never never
  · have same : row'.op.attemptCount = row.op.attemptCount := by
      rw [settled]
      rfl
    refine ⟨by omega, ?_⟩
    rw [settled]
    exact terminal
  · rcases never with cancelled | rejected
    · rw [dispatched] at cancelled
      cases cancelled
    · rw [dispatched] at rejected
      cases rejected

/-- What a host reports is never recorded as not dispatched. -/
theorem outcome_phase {receipt : Option GuestModel.Receipt} {notStarted cancellation : Bool} :
    (outcome receipt notStarted cancellation).2 ≠ .cancelledBeforeDispatch ∧
      (outcome receipt notStarted cancellation).2 ≠ .rejectedBeforeDispatch := by
  unfold outcome
  split
  · split <;> simp
  · simp
  · simp
  · simp
  · split
    · simp
    · split <;> simp

theorem finishExecuteObservation_never {observation : Option CommandObservation} {allowSimulated : Bool}
    (inv : DispatchInv enc row)
    (h : finishExecuteObservation enc row claim observation allowSimulated now = .ok row') :
    DispatchInv enc row' := by
  refine ⟨finishExecuteObservation_keeps inv.inv h, fun never => ?_⟩
  unfold finishExecuteObservation at h
  obtain ⟨ctx, _, h⟩ := bind_ok.mp h
  obtain ⟨_, _, h⟩ := bind_ok.mp h
  obtain ⟨_, _, h⟩ := bind_ok.mp h
  rw [← pure_ok.mp h] at never
  rcases never with cancelled | rejected
  · exact absurd cancelled outcome_phase.1
  · exact absurd rejected outcome_phase.2

theorem reconcileCancel_never (inv : DispatchInv enc row) (h : reconcileCancel row claim now = .ok row') :
    DispatchInv enc row' := by
  have next := reconcileCancel_keeps inv.inv h
  have advances : row.op.Advances now row'.op.toOperation := by
    rw [reconcileCancel_op h]
    exact revoke_advances
  by_cases undispatched : row.op.Undispatched
  · have revoked := reconcileCancel_op h
    unfold ExecuteOperation.revoke at revoked
    rw [if_pos undispatched] at revoked
    refine ⟨next, fun _ => ?_⟩
    rw [revoked]
    exact ⟨undispatched.2.1, .inr (.inr rfl)⟩
  · have same := reconcileCancel_op h
    unfold ExecuteOperation.revoke at same
    rw [if_neg undispatched] at same
    exact inv.keep next (by rw [same]) (by rw [same]) advances

theorem executeStep_dispatchInv (row : ExecuteRow) (event : ExecuteEvent) (inv : DispatchInv enc row) :
    DispatchInv enc (executeStep enc row event) := by
  cases event with
  | claimExecute lease now =>
    refine commit_keeps inv fun _ h => ?_
    have next := claimExecute_keeps inv.inv h
    have advances := claimExecute_advances h
    obtain ⟨_, rfl⟩ := updateClaim_ok h
    exact inv.keep next rfl rfl advances
  | renewExecute claim lease now =>
    refine commit_keeps inv fun _ h => ?_
    have next := renewExecute_keeps inv.inv h
    have advances := (renewExecute_guarded h).advances
    obtain ⟨_, rfl⟩ := updateClaim_ok h
    exact inv.keep next rfl rfl advances
  | deferExecute claim delay now =>
    refine commit_keeps inv fun _ h => ?_
    have next := deferExecute_keeps inv.inv h
    have advances := (deferExecute_guarded h).advances
    obtain ⟨_, rfl⟩ := updateClaim_ok h
    exact inv.keep next rfl rfl advances
  | prepareExecute claim host epoch authority now =>
    refine commit_keeps inv fun _ h => ?_
    obtain ⟨_, h⟩ := map_fst_ok h
    exact prepareExecute_never inv h
  | finishExecuteObservation claim observation allowSimulated now =>
    exact commit_keeps inv fun _ h => finishExecuteObservation_never inv h
  | admitCancel id =>
    refine commit_keeps inv fun _ h => ⟨admitCancel_keeps inv.inv h, ?_⟩
    rw [admitCancel_op h]
    exact inv.never
  | claimCancel lease now =>
    refine commit_keeps inv fun _ h => ⟨claimCancel_keeps inv.inv h, ?_⟩
    rw [claimCancel_op h]
    exact inv.never
  | reconcileCancel claim now => exact commit_keeps inv fun _ h => reconcileCancel_never inv h
  | assignRetention period =>
    refine commit_keeps inv fun next h => ⟨assignRetention_keeps inv.inv h, fun never => ?_⟩
    obtain ⟨same, phase⟩ := assignRetention_op h
    unfold ExecuteOperation.NeverDispatched at never
    rw [phase] at never
    rw [same]
    exact inv.never never

theorem dispatches_marks : Marks (executeStep enc) (DispatchInv enc) (dispatches enc)
    fun row => 0 < row.op.attemptCount := by
  refine ⟨⟨executeStep_dispatchInv, ?_, ?_⟩, ?_⟩
  · intro row event _ attempted
    exact attempted.trans_le (executeStep_advances row event 0).attempts
  · intro row event answer inv answered attempted
    obtain ⟨claim, host, epoch, authority, now, row', rfl, found⟩ := dispatches_ok answered
    obtain ⟨_, ⟨_, other⟩ | ⟨zero, _⟩ | ⟨zero, _⟩⟩ := prepareExecute_cases found
    · exact other _ _ rfl
    · omega
    · omega
  · intro row event answer inv answered
    obtain ⟨claim, host, epoch, authority, now, row', rfl, found⟩ := dispatches_ok answered
    simp only [executeStep, found, Except.map, commit]
    obtain ⟨_, ⟨_, other⟩ | ⟨_, _, other⟩ | ⟨_, one, _⟩⟩ := prepareExecute_cases found
    · exact absurd rfl (other _ _)
    · cases other
    · omega

theorem dispatches_bars : Bars (executeStep enc) (DispatchInv enc) (dispatches enc)
    fun row => row.op.status.Terminal := by
  refine ⟨executeStep_dispatchInv, ?_, ?_⟩
  · intro row event _ terminal
    exact (executeStep_advances row event 0).terminal terminal
  · intro row event answer inv answered terminal
    obtain ⟨claim, host, epoch, authority, now, row', rfl, found⟩ := dispatches_ok answered
    exact Status.not_terminal_of_live (prepareExecute_cases found).1 terminal

theorem admitExecute_phase {r : ExecuteCommand} {id : OperationId} {allocation : PinnedAllocation}
    {clock : ℕ} (h : admitExecute enc r id allocation clock = some row) : row.op.phase = .admitted := by
  simp only [admitExecute, Option.bind_eq_bind, Option.bind_eq_some_iff] at h
  obtain ⟨_, _, _, _, _, _, h⟩ := h
  cases h
  rfl

/-- A command is dispatched at most once, and not at all, before or after, where it is recorded as
cancelled or rejected before dispatch. -/
theorem command_dispatched_once {r : ExecuteCommand} {id : OperationId} {allocation : PinnedAllocation}
    {clock : ℕ} (admitted : admitExecute enc r id allocation clock = some row)
    (before after : List ExecuteEvent) :
    (answers (executeStep enc) (dispatches enc) row (before ++ after)).length ≤ 1 ∧
      ((run (executeStep enc) row before).op.NeverDispatched →
        answers (executeStep enc) (dispatches enc) row (before ++ after) = []) := by
  have start : DispatchInv enc row := by
    refine ⟨admitExecute_inv admitted, fun never => ?_⟩
    have phase := admitExecute_phase admitted
    rcases never with cancelled | rejected
    · rw [phase] at cancelled
      cases cancelled
    · rw [phase] at rejected
      cases rejected
  refine ⟨dispatches_marks.answers_le_one start, fun never => ?_⟩
  have reached : DispatchInv enc (run (executeStep enc) row before) :=
    run_invariant executeStep_dispatchInv start
  obtain ⟨zero, terminal⟩ := reached.never never
  have unattempted : ¬0 < (run (executeStep enc) row before).op.attemptCount := by omega
  rw [answers_append, dispatches_marks.unanswered start unattempted,
    dispatches_bars.answers_nil reached terminal]
  rfl

end Execute

namespace CommandSample

/-- Claimed, prepared and observed after its cancellation, the command is never dispatched. -/
theorem cancelled_never_dispatched :
    answers (executeStep encoding) (dispatches encoding) row (cancelled ++ observed "boot") = [] :=
  (command_dispatched_once admitted cancelled (observed "boot")).2 (by decide +kernel)

example : (answers (executeStep encoding) (dispatches encoding) row (observed "boot")).length = 1 := by
  decide +kernel

end CommandSample
end HudsonSandbox.Store
