import HudsonSandbox.Store.Retirable
import HudsonSandbox.Store.Stream

/-!
# How operation rows advance

What every transaction on the rows of a sandbox or of a command does to the columns that all
operations share: attempts, claim revisions and outcomes only move forward, and a claim that has
ended stays ended.
-/

namespace HudsonSandbox.Store
open Checked LiveOutput Supervisor AllocationAuthority Run

/-- A write at `now` takes back no attempt, outcome or claim, and only a live claim goes on living. -/
structure Operation.Advances (now : Time) (op op' : Operation) : Prop where
  id : op'.id = op.id
  attempts : op.attemptCount ≤ op'.attemptCount
  revision : op.claimRevision ≤ op'.claimRevision
  terminal : op.status.Terminal → op'.status.Terminal
  alive : op'.claimRevision = op.claimRevision → op'.status.Live →
    ∀ t, now ≤ t → Pending op'.leaseExpiresAt t → Pending op.leaseExpiresAt now ∧ op.status.Live

section Rows
variable {op op' : Operation} {now : Time} {claim : Claim}

theorem Pending.earlier {column : Option Time} {t : Time} (pending : Pending column t)
    (before : now ≤ t) : Pending column now := by
  obtain ⟨lease, found, later⟩ := pending
  exact ⟨lease, found, lt_of_le_of_lt before later⟩

theorem Operation.Advances.refl (now : Time) (op : Operation) : op.Advances now op :=
  ⟨rfl, le_rfl, le_rfl, fun done => done,
    fun _ live _ before pending => ⟨pending.earlier before, live⟩⟩

/-- The holder of a live claim may write what it likes, as long as it counts forward. -/
theorem Operation.Advances.of_fenced (fenced : op.Fenced claim now) (id : op'.id = op.id)
    (attempts : op.attemptCount ≤ op'.attemptCount)
    (revision : op.claimRevision ≤ op'.claimRevision) : op.Advances now op' :=
  ⟨id, attempts, revision, fun terminal => absurd terminal (Status.not_terminal_of_live fenced.2.2.2),
    fun _ _ _ _ _ => ⟨fenced.2.2.1, fenced.2.2.2⟩⟩

/-- A claim that is taken or revoked leaves no earlier claim behind. -/
theorem Operation.Advances.of_raised (id : op'.id = op.id)
    (attempts : op.attemptCount ≤ op'.attemptCount) (raised : op.claimRevision < op'.claimRevision)
    (open_ : ¬op.status.Terminal) : op.Advances now op' :=
  ⟨id, attempts, raised.le, fun terminal => absurd terminal open_,
    fun same => absurd same raised.ne'⟩

theorem Operation.Advances.of_terminal (id : op'.id = op.id)
    (attempts : op.attemptCount ≤ op'.attemptCount)
    (revision : op.claimRevision ≤ op'.claimRevision) (done : op'.status.Terminal) :
    op.Advances now op' :=
  ⟨id, attempts, revision, fun _ => done,
    fun _ live => absurd done (Status.not_terminal_of_live live)⟩

theorem claimNext_advances {lease : ℤ} (claimable : op.Claimable now) :
    op.Advances now (op.claimNext lease now) :=
  .of_raised rfl le_rfl (Int.lt_succ _) claimable.1

end Rows

/-! ### The rows of one sandbox -/

section Lifecycle
variable {strict : Prop} {allowSimulated : Bool} {c : OperationId} {s s' : Lifecycle}
  {op : LifecycleOperation} {claim : Claim} {kind : Kind} {now : Time}

/-- Every row of the sandbox advances, and none is lost. -/
def RowsAdvance (now : Time) (s s' : Lifecycle) : Prop :=
  ∀ id op, s.op id = some op → ∃ op', s'.op id = some op' ∧ op.Advances now op'.toOperation

/-- A transaction under a live claim, on the row that the claim is for. -/
structure Guarded (s : Lifecycle) (claim : Claim) (now : Time) (s' : Lifecycle) : Prop where
  holder : ∃ op, s.op claim.operationId = some op ∧ op.Fenced claim now
  rows : RowsAdvance now s s'

theorem RowsAdvance.refl (rows : s'.operations = s.operations) : RowsAdvance now s s' := by
  intro id op found
  refine ⟨op, ?_, .refl now _⟩
  unfold Lifecycle.op at found ⊢
  rw [rows]
  exact found

theorem RowsAdvance.trans {s'' : Lifecycle} (first : RowsAdvance now s s')
    (second : s''.operations = s'.operations) : RowsAdvance now s s'' := by
  intro id op found
  obtain ⟨op', kept, advances⟩ := first id op found
  refine ⟨op', ?_, advances⟩
  unfold Lifecycle.op at kept ⊢
  rw [second]
  exact kept

theorem RowsAdvance.update {id : OperationId} {change : LifecycleOperation → LifecycleOperation}
    (rows : s'.operations = s.updateOperation id change) (keeps : ∀ row, (change row).id = row.id)
    (advances : ∀ op, s.op id = some op → op.Advances now (change op).toOperation) :
    RowsAdvance now s s' := by
  intro other op found
  by_cases same : other = id
  · subst same
    refine ⟨change op, ?_, advances op found⟩
    rw [op_update rows keeps, found]
    rfl
  · refine ⟨op, ?_, .refl now _⟩
    rw [op_update_of_ne rows keeps same]
    exact found

theorem RowsAdvance.insert {row : LifecycleOperation} (fresh : s.op row.id = none)
    (rows : s'.operations = s.operations ++ [row]) : RowsAdvance now s s' := by
  intro id op found
  refine ⟨op, ?_, .refl now _⟩
  rw [op_insert fresh rows, if_neg, found]
  rintro rfl
  rw [found] at fresh
  cases fresh

/-- The claim holder's update of its own row. -/
theorem Guarded.update {change : LifecycleOperation → LifecycleOperation}
    (found : s.op claim.operationId = some op) (fenced : op.Fenced claim now)
    (rows : s'.operations = s.updateOperation claim.operationId change)
    (keeps : ∀ row, (change row).id = row.id)
    (attempts : op.attemptCount ≤ (change op).attemptCount)
    (revision : op.claimRevision ≤ (change op).claimRevision) : Guarded s claim now s' := by
  refine ⟨⟨op, found, fenced⟩, .update rows keeps fun again held => ?_⟩
  rw [found] at held
  cases held
  exact .of_fenced fenced (keeps op) attempts revision

theorem updateLifecycleClaim_ok {id : OperationId} {allowed : LifecycleOperation → Prop}
    [DecidablePred allowed] {change : Operation → Operation}
    (h : updateLifecycleClaim s id allowed change = .ok s') :
    ∃ op, s.op id = some op ∧ allowed op ∧ s'.operations = s.updateOperation id fun row =>
      { row with toOperation := change row.toOperation } := by
  unfold updateLifecycleClaim at h
  obtain ⟨op, found, h⟩ := bind_ok.mp h
  obtain ⟨_, checked, h⟩ := bind_ok.mp h
  rw [← pure_ok.mp h]
  exact ⟨op, okOr_ok.mp found, ensure_ok.mp checked, rfl⟩

theorem claimLifecycle_advances {id : OperationId} {lease : ℤ}
    (h : claimLifecycle s id lease now = .ok s') : RowsAdvance now s s' := by
  obtain ⟨op, found, allowed, rows⟩ := updateLifecycleClaim_ok h
  refine .update rows (fun _ => rfl) fun again held => ?_
  rw [found] at held
  cases held
  exact claimNext_advances allowed.1

theorem renewLifecycle_guarded {lease : ℤ} (h : renewLifecycle s claim lease now = .ok s') :
    Guarded s claim now s' := by
  obtain ⟨op, found, fenced, rows⟩ := updateLifecycleClaim_ok h
  exact .update found fenced rows (fun _ => rfl) le_rfl le_rfl

theorem deferLifecycle_guarded {delay : ℤ} (h : deferLifecycle s claim delay now = .ok s') :
    Guarded s claim now s' := by
  obtain ⟨op, found, fenced, rows⟩ := updateLifecycleClaim_ok h
  exact .update found fenced rows (fun _ => rfl) le_rfl le_rfl

/-- Placement writes under the claim, or reports the allocation that is there already. -/
theorem reserveCreate_guarded {id : AllocationId} {host : HostId} {expectedEpoch : ℤ}
    {checks : PlacementChecks} (h : reserveCreate s claim id host expectedEpoch checks now = .ok s') :
    Guarded s claim now s' := by
  unfold reserveCreate at h
  obtain ⟨op, found, h⟩ := bind_ok.mp h
  obtain ⟨_, fenced, h⟩ := bind_ok.mp h
  obtain ⟨_, _, h⟩ := bind_ok.mp h
  have found := okOr_ok.mp found
  have fenced := ensure_ok.mp fenced
  split at h
  · obtain ⟨_, _, h⟩ := bind_ok.mp h
    cases pure_ok.mp h
    exact ⟨⟨op, found, fenced⟩, .refl rfl⟩
  · iterate 8 obtain ⟨_, _, h⟩ := bind_ok.mp h
    rw [← pure_ok.mp h]
    exact .update found fenced rfl (fun _ => rfl) le_rfl le_rfl

theorem prepareCreateDispatch_guarded {checks : DispatchChecks} {action : CreateAction}
    (h : prepareCreateDispatch s claim checks now = .ok (s', action)) : Guarded s claim now s' := by
  unfold prepareCreateDispatch at h
  obtain ⟨ctx, found, h⟩ := bind_ok.mp h
  have holds := contextAtEpoch_ok found
  split at h
  · cases pure_ok.mp h
    exact .update holds.found holds.fenced rfl (fun _ => rfl) le_rfl le_rfl
  · iterate 6 obtain ⟨_, _, h⟩ := bind_ok.mp h
    cases pure_ok.mp h
    have counted : ctx.op.attemptCount ≤ ctx.op.attemptCount + 1 := by omega
    exact .update holds.found holds.fenced rfl (fun _ => rfl) counted le_rfl

theorem recordCreateUnknown_guarded (h : recordCreateUnknown s claim now = .ok s') :
    Guarded s claim now s' := by
  unfold recordCreateUnknown at h
  obtain ⟨ctx, found, h⟩ := bind_ok.mp h
  have holds := contextAtEpoch_ok found
  rw [← pure_ok.mp h]
  exact .update holds.found holds.fenced rfl (fun _ => rfl) le_rfl le_rfl

theorem recordCreateObservation_guarded {observation : Observation}
    (h : recordCreateObservation s claim observation allowSimulated now = .ok s') :
    Guarded s claim now s' := by
  unfold recordCreateObservation at h
  obtain ⟨_, _, h⟩ := bind_ok.mp h
  obtain ⟨ctx, found, h⟩ := bind_ok.mp h
  have holds := contextAtEpoch_ok found
  obtain ⟨_, _, h⟩ := bind_ok.mp h
  obtain ⟨_, _, h⟩ := bind_ok.mp h
  obtain ⟨_, _, h⟩ := bind_ok.mp h
  obtain ⟨_, _, h⟩ := bind_ok.mp h
  split at h
  · obtain ⟨_, _, h⟩ := bind_ok.mp h
    rw [← pure_ok.mp h]
    exact .update holds.found holds.fenced rfl (fun _ => rfl) le_rfl le_rfl
  · rw [← pure_ok.mp h]
    exact .update holds.found holds.fenced rfl (fun _ => rfl) le_rfl le_rfl

theorem rejectUndispatchedCreate_guarded {reason : CreateRejection}
    (h : rejectUndispatchedCreate s claim reason now = .ok s') : Guarded s claim now s' := by
  unfold rejectUndispatchedCreate at h
  obtain ⟨op, found, h⟩ := bind_ok.mp h
  obtain ⟨_, checked, h⟩ := bind_ok.mp h
  obtain ⟨_, _, h⟩ := bind_ok.mp h
  obtain ⟨_, _, h⟩ := bind_ok.mp h
  obtain ⟨_, _, h⟩ := bind_ok.mp h
  rw [← pure_ok.mp h]
  exact .update (okOr_ok.mp found) (ensure_ok.mp checked).1 rfl (fun _ => rfl) le_rfl le_rfl

theorem prepareDestroy_guarded {retryStop : Bool} {action : DestroyAction}
    (h : prepareDestroy s claim retryStop now = .ok (s', action)) : Guarded s claim now s' := by
  unfold prepareDestroy at h
  obtain ⟨ctx, found, h⟩ := bind_ok.mp h
  have holds := contextAtEpoch_ok found
  obtain ⟨_, _, h⟩ := bind_ok.mp h
  obtain ⟨_, _, h⟩ := bind_ok.mp h
  cases pure_ok.mp h
  refine .update holds.found holds.fenced rfl (fun _ => rfl) ?_ le_rfl
  show ctx.op.attemptCount ≤ ctx.op.attemptCount + _
  split <;> omega

theorem recordDestroyUnknown_guarded (h : recordDestroyUnknown s claim now = .ok s') :
    Guarded s claim now s' := by
  unfold recordDestroyUnknown at h
  obtain ⟨ctx, found, h⟩ := bind_ok.mp h
  have holds := contextAtEpoch_ok found
  rw [← pure_ok.mp h]
  exact .update holds.found holds.fenced rfl (fun _ => rfl) le_rfl le_rfl

/-- A confirmed release ends the destroy and the create it superseded. -/
theorem destroyed_advances {receipt : LifecycleEvidence} (found : s.op op.id = some op)
    (fenced : op.Fenced claim now) (rows : s'.operations = s.destroyedRows op receipt now) :
    RowsAdvance now s s' := by
  -- First the superseded create, then the destroy's own row.
  have create : ∃ middle : Lifecycle, RowsAdvance now s middle ∧
      s'.operations = middle.updateOperation op.id (·.complete .succeeded .destroyed receipt now) := by
    unfold Lifecycle.destroyedRows at rows
    cases superseded : op.supersedesOperationId with
    | none =>
      rw [superseded] at rows
      exact ⟨s, .refl rfl, rows⟩
    | some previous =>
      rw [superseded] at rows
      refine ⟨{ s with operations := s.updateOperation previous (·.destroyedDuringCreate receipt now) },
        .update rfl (fun _ => rfl) fun _ _ => ?_, rows⟩
      exact .of_terminal rfl le_rfl le_rfl (.inr (.inl rfl))
  obtain ⟨middle, before, rows⟩ := create
  intro id row held
  obtain ⟨row', kept, advances⟩ := before id row held
  by_cases own : id = op.id
  · subst own
    rw [found] at held
    cases held
    refine ⟨row'.complete .succeeded .destroyed receipt now, ?_, ?_⟩
    · rw [op_update rows (fun _ => rfl), kept]
      rfl
    · exact .of_fenced fenced advances.id advances.attempts advances.revision
  · refine ⟨row', ?_, advances⟩
    rw [op_update_of_ne rows (fun _ => rfl) own]
    exact kept

theorem recordDestroyObservation_guarded {observation : Observation}
    (h : recordDestroyObservation s claim observation allowSimulated now = .ok s') :
    Guarded s claim now s' := by
  unfold recordDestroyObservation at h
  obtain ⟨_, _, h⟩ := bind_ok.mp h
  obtain ⟨ctx, found, h⟩ := bind_ok.mp h
  have holds := contextAtEpoch_ok found
  obtain ⟨_, _, h⟩ := bind_ok.mp h
  obtain ⟨_, _, h⟩ := bind_ok.mp h
  rw [← pure_ok.mp h]
  have own : ctx.op.id = claim.operationId := op_id holds.found
  exact ⟨⟨ctx.op, holds.found, holds.fenced⟩,
    destroyed_advances (by rw [own]; exact holds.found) holds.fenced rfl⟩

/-- Recovery writes under the claim, or finds nothing that the host's epoch leaves behind. -/
theorem preparePreviousAllocation_guarded {host : HostId} {reportingEpoch : ℤ}
    {action : Option PreviousAction}
    (h : preparePreviousAllocation s claim host reportingEpoch now = .ok (s', action)) :
    s' = s ∨ Guarded s claim now s' := by
  unfold preparePreviousAllocation at h
  obtain ⟨_, _, h⟩ := bind_ok.mp h
  split at h
  · cases pure_ok.mp h
    exact .inl rfl
  · obtain ⟨_, _, h⟩ := bind_ok.mp h
    obtain ⟨ctx, found, h⟩ := bind_ok.mp h
    have holds := contextAtEpoch_ok found
    obtain ⟨_, _, h⟩ := bind_ok.mp h
    split at h
    · cases pure_ok.mp h
      exact .inl rfl
    · unfold reconcilePrevious at h
      obtain ⟨_, _, h⟩ := bind_ok.mp h
      cases pure_ok.mp h
      exact .inr (.update holds.found holds.fenced rfl (fun _ => rfl) le_rfl le_rfl)

theorem recordPreviousUnknown_guarded {request : PreviousAllocationRequest}
    (h : recordPreviousUnknown s claim request now = .ok s') : Guarded s claim now s' := by
  unfold recordPreviousUnknown at h
  obtain ⟨ctx, found, h⟩ := bind_ok.mp h
  obtain ⟨holds, _⟩ := previousContext_ok found
  obtain ⟨_, _, h⟩ := bind_ok.mp h
  rw [← pure_ok.mp h]
  exact .update holds.found holds.fenced rfl (fun _ => rfl) le_rfl le_rfl

theorem recordPreviousRelease_guarded {observation : PreviousAllocationObservation}
    (h : recordPreviousRelease s claim observation allowSimulated now = .ok s') :
    Guarded s claim now s' := by
  unfold recordPreviousRelease at h
  obtain ⟨_, _, h⟩ := bind_ok.mp h
  obtain ⟨_, _, h⟩ := bind_ok.mp h
  obtain ⟨_, _, h⟩ := bind_ok.mp h
  obtain ⟨ctx, found, h⟩ := bind_ok.mp h
  obtain ⟨holds, _⟩ := previousContext_ok found
  obtain ⟨_, _, h⟩ := bind_ok.mp h
  obtain ⟨_, _, h⟩ := bind_ok.mp h
  obtain ⟨_, _, h⟩ := bind_ok.mp h
  rw [← pure_ok.mp h]
  have own : ctx.op.id = claim.operationId := op_id holds.found
  refine ⟨⟨ctx.op, holds.found, holds.fenced⟩, ?_⟩
  have held : s.op ctx.op.id = some ctx.op := by
    rw [own]
    exact holds.found
  by_cases destroy : ctx.op.kind = .destroy
  · exact destroyed_advances held holds.fenced (if_pos destroy)
  · refine .update (if_neg destroy) (fun _ => rfl) fun again found => ?_
    rw [held] at found
    cases found
    exact .of_fenced holds.fenced rfl le_rfl le_rfl

/-! ### Transactions under no operation claim -/

/-- Whoever still claims the create that a destroy supersedes is revoked with it. -/
theorem supersedeActive_advances {immediate : Bool}
    (idle : ¬∃ op ∈ s.previous, op.kind ≠ .create ∨ op.status ≠ .unknown)
    (rows : s'.operations = s.supersedeActive immediate now) : RowsAdvance now s s' := by
  unfold Lifecycle.supersedeActive at rows
  cases active : s.sandbox.activeTransitionOperationId with
  | none =>
    rw [active] at rows
    exact .refl rows
  | some owner =>
    rw [active] at rows
    refine .update rows (fun _ => rfl) fun op found => ?_
    have unknown : op.status = .unknown := by
      by_contra other
      refine idle ⟨op, ?_, .inr other⟩
      unfold Lifecycle.previous
      rw [active]
      exact found
    have open_ : ¬op.status.Terminal := by
      rw [unknown]
      decide
    have raised : op.claimRevision < (op.supersede immediate now).claimRevision := Int.lt_succ _
    exact .of_raised rfl le_rfl raised open_

theorem admitDestroy_advances {id : OperationId} {authorized : Bool} {admission : DestroyAdmission}
    (h : admitDestroy s id authorized now = .ok (s', admission)) : RowsAdvance now s s' := by
  unfold admitDestroy at h
  split at h
  · cases h
    exact .refl rfl
  next idle =>
    split at h
    · cases h
      exact .refl rfl
    · obtain ⟨_, _, h⟩ := bind_ok.mp h
      obtain ⟨_, _, h⟩ := bind_ok.mp h
      cases pure_ok.mp h
      have first : RowsAdvance now s
          { s with operations := s.supersedeActive (decide (s.NoOp ∨ s.NeverAllocated)) now } :=
        supersedeActive_advances idle rfl
      intro other op found
      obtain ⟨op', kept, advances⟩ := first other op found
      refine ⟨op', ?_, advances⟩
      unfold Lifecycle.op at kept ⊢
      exact Table.find_append kept

theorem cleanup_advances {id : OperationId} (h : cleanup s id now = .ok s') : RowsAdvance now s s' := by
  unfold cleanup at h
  obtain ⟨_, fresh, h⟩ := bind_ok.mp h
  rw [← pure_ok.mp h]
  exact .insert (ensure_ok.mp fresh) rfl

theorem prepareLease_advances {claim : AllocationClaim} {id : OperationId} {projectActive : Bool}
    {action : LeaseAction} (h : prepareLease s claim id projectActive now = .ok (s', action)) :
    RowsAdvance now s s' := by
  unfold prepareLease at h
  obtain ⟨ctx, _, h⟩ := bind_ok.mp h
  dsimp only at h
  split at h
  · obtain ⟨next, made, h⟩ := bind_ok.mp h
    cases pure_ok.mp h
    exact (cleanup_advances made).trans rfl
  split at h
  · cases pure_ok.mp h
    exact .refl rfl
  split at h
  · cases pure_ok.mp h
    exact .refl rfl
  · cases pure_ok.mp h
    exact .refl rfl

theorem leaseReady_advances {ctx : LeaseContext} {id : OperationId} {observed : ℤ}
    {projectActive : Bool} (h : leaseReady s ctx id observed projectActive now = .ok s') :
    RowsAdvance now s s' := by
  unfold leaseReady at h
  obtain ⟨_, _, h⟩ := bind_ok.mp h
  obtain ⟨_, _, h⟩ := bind_ok.mp h
  obtain ⟨_, _, h⟩ := bind_ok.mp h
  split at h
  · exact cleanup_advances h
  · rw [← pure_ok.mp h]
    exact .refl rfl

theorem recordLeaseObservation_advances {claim : AllocationClaim} {id : OperationId}
    {observation : LeaseObservation} {projectActive : Bool}
    (h : recordLeaseObservation s claim id observation projectActive allowSimulated now = .ok s') :
    RowsAdvance now s s' := by
  unfold recordLeaseObservation at h
  obtain ⟨_, _, h⟩ := bind_ok.mp h
  obtain ⟨ctx, _, h⟩ := bind_ok.mp h
  obtain ⟨_, _, h⟩ := bind_ok.mp h
  obtain ⟨_, _, h⟩ := bind_ok.mp h
  obtain ⟨next, made, h⟩ := bind_ok.mp h
  obtain ⟨_, _, h⟩ := bind_ok.mp h
  rw [← pure_ok.mp h]
  suffices advances : RowsAdvance now s next from advances.trans rfl
  unfold leaseObserved at made
  split at made
  · exact cleanup_advances made
  · exact cleanup_advances made
  · exact leaseReady_advances made
  · cases made

theorem compactLifecycle_advances {id : OperationId} (h : compactLifecycle s id = .ok s') :
    RowsAdvance now s s' := by
  unfold compactLifecycle at h
  obtain ⟨_, _, h⟩ := bind_ok.mp h
  obtain ⟨_, _, h⟩ := bind_ok.mp h
  rw [← pure_ok.mp h]
  exact .update rfl (fun _ => rfl) fun op _ => .refl now _

/-- Maintenance of the lease and of the host writes no operation row. -/
theorem claimAllocation_rows {host : HostId} {epoch lease : ℤ}
    (h : claimAllocation s host epoch lease now = .ok s') : s'.operations = s.operations := by
  unfold claimAllocation at h
  obtain ⟨_, _, h⟩ := bind_ok.mp h
  obtain ⟨_, _, h⟩ := bind_ok.mp h
  obtain ⟨_, _, h⟩ := bind_ok.mp h
  rw [← pure_ok.mp h]

theorem deferAllocation_rows {claim : AllocationClaim} (h : deferAllocation s claim now = .ok s') :
    s'.operations = s.operations := by
  unfold deferAllocation at h
  obtain ⟨_, _, h⟩ := bind_ok.mp h
  obtain ⟨_, _, h⟩ := bind_ok.mp h
  rw [← pure_ok.mp h]

theorem recordLeaseUnknown_rows {claim : AllocationClaim}
    (h : recordLeaseUnknown s claim now = .ok s') : s'.operations = s.operations := by
  unfold recordLeaseUnknown at h
  obtain ⟨_, _, h⟩ := bind_ok.mp h
  rw [← pure_ok.mp h]

theorem markHostRuntimeUnknown_rows {host : HostId} {epoch : ℤ}
    (h : markHostRuntimeUnknown s host epoch = .ok s') : s'.operations = s.operations := by
  unfold markHostRuntimeUnknown at h
  obtain ⟨_, _, h⟩ := bind_ok.mp h
  obtain ⟨_, _, h⟩ := bind_ok.mp h
  rw [← pure_ok.mp h]

theorem markPreviousEpochUnknown_rows {host : HostId} {epoch : ℤ}
    (h : markPreviousEpochUnknown s host epoch = .ok s') : s'.operations = s.operations := by
  unfold markPreviousEpochUnknown at h
  obtain ⟨_, _, h⟩ := bind_ok.mp h
  obtain ⟨_, _, h⟩ := bind_ok.mp h
  rw [← pure_ok.mp h]

theorem registerHost_rows {host : HostId} {epoch : ℤ} (h : registerHost s host epoch = .ok s') :
    s'.operations = s.operations := by
  unfold registerHost at h
  obtain ⟨_, _, h⟩ := bind_ok.mp h
  rw [← pure_ok.mp h]

/-! ### Any transaction -/

/-- The database's clock at a transaction, where it reads the clock. -/
def LifecycleEvent.clock : LifecycleEvent → Option Time
  | .claimLifecycle _ _ now | .renewLifecycle _ _ now | .deferLifecycle _ _ now
  | .reserveCreate _ _ _ _ _ now | .prepareCreateDispatch _ _ now | .recordCreateUnknown _ now
  | .recordCreateObservation _ _ now | .rejectUndispatchedCreate _ _ now | .admitDestroy _ _ now
  | .prepareDestroy _ _ now | .recordDestroyUnknown _ now | .recordDestroyObservation _ _ now
  | .preparePreviousAllocation _ _ _ now | .recordPreviousUnknown _ _ now
  | .recordPreviousRelease _ _ now | .claimAllocation _ _ _ now | .prepareLease _ _ _ now
  | .deferAllocation _ now | .recordLeaseUnknown _ now | .recordLeaseObservation _ _ _ _ now =>
    some now
  | .markHostRuntimeUnknown _ _ | .markPreviousEpochUnknown _ _ | .compactLifecycle _ | .registerHost _ _ => none

theorem lifecycleStep_advances (s : Lifecycle) (event : LifecycleEvent) (now : Time) :
    RowsAdvance (event.clock.getD now) s (lifecycleStep allowSimulated s event) := by
  have still : RowsAdvance (event.clock.getD now) s s := .refl rfl
  cases event with
  | claimLifecycle id lease now => exact commit_keeps still fun _ h => claimLifecycle_advances h
  | renewLifecycle claim lease now => exact commit_keeps still fun _ h => (renewLifecycle_guarded h).rows
  | deferLifecycle claim delay now => exact commit_keeps still fun _ h => (deferLifecycle_guarded h).rows
  | reserveCreate claim id host expectedEpoch checks now =>
    exact commit_keeps still fun _ h => (reserveCreate_guarded h).rows
  | prepareCreateDispatch claim checks now =>
    refine commit_keeps still fun _ h => ?_
    obtain ⟨_, h⟩ := map_fst_ok h
    exact (prepareCreateDispatch_guarded h).rows
  | recordCreateUnknown claim now => exact commit_keeps still fun _ h => (recordCreateUnknown_guarded h).rows
  | recordCreateObservation claim observation now =>
    exact commit_keeps still fun _ h => (recordCreateObservation_guarded h).rows
  | rejectUndispatchedCreate claim reason now =>
    exact commit_keeps still fun _ h => (rejectUndispatchedCreate_guarded h).rows
  | admitDestroy id authorized now =>
    refine commit_keeps still fun _ h => ?_
    obtain ⟨_, h⟩ := map_fst_ok h
    exact admitDestroy_advances h
  | prepareDestroy claim retryStop now =>
    refine commit_keeps still fun _ h => ?_
    obtain ⟨_, h⟩ := map_fst_ok h
    exact (prepareDestroy_guarded h).rows
  | recordDestroyUnknown claim now => exact commit_keeps still fun _ h => (recordDestroyUnknown_guarded h).rows
  | recordDestroyObservation claim observation now =>
    exact commit_keeps still fun _ h => (recordDestroyObservation_guarded h).rows
  | preparePreviousAllocation claim host reportingEpoch now =>
    refine commit_keeps still fun _ h => ?_
    obtain ⟨_, h⟩ := map_fst_ok h
    rcases preparePreviousAllocation_guarded h with rfl | guarded
    · exact still
    · exact guarded.rows
  | recordPreviousUnknown claim request now =>
    exact commit_keeps still fun _ h => (recordPreviousUnknown_guarded h).rows
  | recordPreviousRelease claim observation now =>
    exact commit_keeps still fun _ h => (recordPreviousRelease_guarded h).rows
  | claimAllocation host epoch lease now =>
    exact commit_keeps still fun _ h => .refl (claimAllocation_rows h)
  | prepareLease claim operation projectActive now =>
    refine commit_keeps still fun _ h => ?_
    obtain ⟨_, h⟩ := map_fst_ok h
    exact prepareLease_advances h
  | deferAllocation claim now => exact commit_keeps still fun _ h => .refl (deferAllocation_rows h)
  | recordLeaseUnknown claim now => exact commit_keeps still fun _ h => .refl (recordLeaseUnknown_rows h)
  | recordLeaseObservation claim operation observation projectActive now =>
    exact commit_keeps still fun _ h => recordLeaseObservation_advances h
  | markHostRuntimeUnknown host epoch =>
    exact commit_keeps still fun _ h => .refl (markHostRuntimeUnknown_rows h)
  | markPreviousEpochUnknown host epoch =>
    exact commit_keeps still fun _ h => .refl (markPreviousEpochUnknown_rows h)
  | compactLifecycle id => exact commit_keeps still fun _ h => compactLifecycle_advances h
  | registerHost host epoch => exact commit_keeps still fun _ h => .refl (registerHost_rows h)

end Lifecycle

/-! ### The row of one command -/

section Execute
variable {enc : GuestModel.CommandEncoding} {row row' : ExecuteRow} {claim : Claim} {now : Time}

/-- A transaction under a live claim on the command's own row. -/
structure ExecuteGuarded (row : ExecuteRow) (claim : Claim) (now : Time) (row' : ExecuteRow) : Prop where
  fenced : row.op.Fenced claim now
  advances : row.op.Advances now row'.op.toOperation

theorem claimExecute_advances {lease : ℤ} (h : claimExecute row lease now = .ok row') :
    row.op.Advances now row'.op.toOperation := by
  obtain ⟨claimable, rfl⟩ := updateClaim_ok h
  exact claimNext_advances claimable

theorem renewExecute_guarded {lease : ℤ} (h : renewExecute row claim lease now = .ok row') :
    ExecuteGuarded row claim now row' := by
  obtain ⟨fenced, rfl⟩ := updateClaim_ok h
  exact ⟨fenced, .of_fenced fenced rfl le_rfl le_rfl⟩

theorem deferExecute_guarded {delay : ℤ} (h : deferExecute row claim delay now = .ok row') :
    ExecuteGuarded row claim now row' := by
  obtain ⟨fenced, rfl⟩ := updateClaim_ok h
  exact ⟨fenced, .of_fenced fenced rfl le_rfl le_rfl⟩

theorem prepareExecute_guarded {host : HostId} {epoch : ℤ} {authority : Authority}
    {action : ExecuteAction}
    (h : prepareExecute enc row claim host epoch authority now = .ok (row', action)) :
    ExecuteGuarded row claim now row' := by
  unfold prepareExecute at h
  obtain ⟨ctx, found, h⟩ := bind_ok.mp h
  have fenced := (executeContext_ok found).1
  split at h
  · obtain ⟨_, _, h⟩ := bind_ok.mp h
    cases pure_ok.mp h
    exact ⟨fenced, .refl now _⟩
  next fresh =>
    split at h
    · obtain ⟨_, _, h⟩ := bind_ok.mp h
      cases pure_ok.mp h
      exact ⟨fenced, .of_fenced fenced rfl le_rfl le_rfl⟩
    obtain ⟨_, _, h⟩ := bind_ok.mp h
    split at h
    · obtain ⟨_, _, h⟩ := bind_ok.mp h
      obtain ⟨_, _, h⟩ := bind_ok.mp h
      cases pure_ok.mp h
      have counted : row.op.attemptCount ≤ 1 := by omega
      exact ⟨fenced, .of_fenced fenced rfl counted le_rfl⟩
    · cases pure_ok.mp h
      exact ⟨fenced, .of_fenced fenced rfl le_rfl le_rfl⟩

theorem finishExecuteObservation_guarded {observation : Option CommandObservation}
    {allowSimulated : Bool}
    (h : finishExecuteObservation enc row claim observation allowSimulated now = .ok row') :
    ExecuteGuarded row claim now row' := by
  unfold finishExecuteObservation at h
  obtain ⟨ctx, found, h⟩ := bind_ok.mp h
  have fenced := (executeContext_ok found).1
  obtain ⟨_, _, h⟩ := bind_ok.mp h
  obtain ⟨_, _, h⟩ := bind_ok.mp h
  rw [← pure_ok.mp h]
  exact ⟨fenced, .of_fenced fenced rfl le_rfl le_rfl⟩

/-- A cancellation revokes whoever claims a command that nobody dispatched. -/
theorem revoke_advances : row.op.Advances now (row.op.revoke now).toOperation := by
  unfold ExecuteOperation.revoke
  split
  next undispatched =>
    have open_ : ¬row.op.status.Terminal := by
      rcases undispatched.1 with queued | running
      · rw [queued]
        decide
      · rw [running]
        decide
    have raised : row.op.claimRevision < row.op.claimRevision + 1 := Int.lt_succ _
    exact .of_raised rfl le_rfl raised open_
  · exact .refl now _

theorem reconcileCancel_op (h : reconcileCancel row claim now = .ok row') :
    row'.op = row.op.revoke now := by
  unfold reconcileCancel at h
  obtain ⟨_, _, h⟩ := bind_ok.mp h
  obtain ⟨_, _, h⟩ := bind_ok.mp h
  rw [← pure_ok.mp h]

theorem admitCancel_op {id : OperationId} (h : admitCancel row id = .ok row') : row'.op = row.op := by
  unfold admitCancel at h
  obtain ⟨_, _, h⟩ := bind_ok.mp h
  obtain ⟨_, _, h⟩ := bind_ok.mp h
  split at h
  · rw [← pure_ok.mp h]
  · rw [← pure_ok.mp h]

theorem claimCancel_op {lease : ℤ} (h : claimCancel row lease now = .ok row') : row'.op = row.op := by
  unfold claimCancel at h
  obtain ⟨_, _, h⟩ := bind_ok.mp h
  obtain ⟨_, _, h⟩ := bind_ok.mp h
  rw [← pure_ok.mp h]

theorem assignRetention_op {period : ℤ} (h : assignRetention row period = .ok row') :
    row'.op.toOperation = row.op.toOperation ∧ row'.op.phase = row.op.phase := by
  unfold assignRetention at h
  obtain ⟨_, _, h⟩ := bind_ok.mp h
  obtain ⟨_, _, h⟩ := bind_ok.mp h
  rw [← pure_ok.mp h]
  exact ⟨rfl, rfl⟩

def ExecuteEvent.clock : ExecuteEvent → Option Time
  | .claimExecute _ now | .renewExecute _ _ now | .deferExecute _ _ now
  | .prepareExecute _ _ _ _ now | .finishExecuteObservation _ _ _ now | .claimCancel _ now
  | .reconcileCancel _ now => some now
  | .admitCancel _ | .assignRetention _ => none

/-- The command's own row advances. -/
def CommandAdvances (now : Time) (row row' : ExecuteRow) : Prop :=
  row.op.Advances now row'.op.toOperation

theorem executeStep_advances (row : ExecuteRow) (event : ExecuteEvent) (now : Time) :
    CommandAdvances (event.clock.getD now) row (executeStep enc row event) := by
  have still : CommandAdvances (event.clock.getD now) row row := .refl _ _
  cases event with
  | claimExecute lease now =>
    exact commit_keeps still fun _ h => claimExecute_advances h
  | renewExecute claim lease now =>
    exact commit_keeps still fun _ h => (renewExecute_guarded h).advances
  | deferExecute claim delay now =>
    exact commit_keeps still fun _ h => (deferExecute_guarded h).advances
  | prepareExecute claim host epoch authority now =>
    refine commit_keeps still fun _ h => ?_
    obtain ⟨_, h⟩ := map_fst_ok h
    exact (prepareExecute_guarded h).advances
  | finishExecuteObservation claim observation allowSimulated now =>
    exact commit_keeps still fun _ h => (finishExecuteObservation_guarded h).advances
  | admitCancel id =>
    refine commit_keeps still fun _ h => ?_
    unfold CommandAdvances
    rw [admitCancel_op h]
    exact still
  | claimCancel lease now =>
    refine commit_keeps still fun _ h => ?_
    unfold CommandAdvances
    rw [claimCancel_op h]
    exact still
  | reconcileCancel claim now =>
    refine commit_keeps still fun _ h => ?_
    unfold CommandAdvances
    rw [reconcileCancel_op h]
    exact revoke_advances
  | assignRetention period =>
    refine commit_keeps still fun _ h => ?_
    unfold CommandAdvances
    rw [(assignRetention_op h).1]
    exact still

end Execute
end HudsonSandbox.Store
