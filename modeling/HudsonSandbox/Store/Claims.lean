import HudsonSandbox.Library.Leases
import HudsonSandbox.Store.Advances

/-!
# Claims of operations

The claims of one operation as leases with fencing revisions, whichever transactions its row is
part of. What a row needs for that is that it advances, and that its guarded transactions check.
-/

namespace HudsonSandbox.Store
open Checked LiveOutput Supervisor AllocationAuthority Run Leases

section Rows
variable {σ ι : Type*}

/-- The events on an operation's row, and which of them take or use a claim of it. -/
structure ClaimedRow (σ ι : Type*) where
  step : σ → ι → σ
  clock : ι → Option Time
  row : σ → Option Operation
  /-- A committed transaction of `claim_next` on the row. -/
  claims : σ → ι → Prop
  claim : ι → Option Claim

/-- The claim revisions of the operation `id`. -/
def ClaimedRow.leased (r : ClaimedRow σ ι) (id : OperationId) [∀ s event, Decidable (r.claims s event)] :
    Leased σ ι ℤ Time where
  step := r.step
  clock := r.clock
  revision s := (r.row s).map (·.claimRevision)
  Live s t := ∃ op ∈ r.row s, Pending op.leaseExpiresAt t ∧ op.status.Live
  acquires s event := if r.claims s event then (r.row (r.step s event)).map (·.claimRevision) else none
  guard event := ((r.claim event).filter fun claim => claim.operationId = id).map (·.revision)

structure ClaimedRow.Lawful (r : ClaimedRow σ ι) (id : OperationId) : Prop where
  advances : ∀ s event now op, r.row s = some op →
    ∃ op', r.row (r.step s event) = some op' ∧ op.Advances ((r.clock event).getD now) op'
  claims : ∀ s event, r.claims s event → ∃ op lease now,
    r.row s = some op ∧ r.row (r.step s event) = some (op.claimNext lease now)
  guards : ∀ s event claim, r.claim event = some claim → claim.operationId = id → r.step s event ≠ s →
    ∃ now op, r.clock event = some now ∧ r.row s = some op ∧ op.Fenced claim now

theorem ClaimedRow.Lawful.fences {r : ClaimedRow σ ι} {id : OperationId}
    [∀ s event, Decidable (r.claims s event)] (lawful : r.Lawful id) : Fences (r.leased id) where
  forward := by
    intro s event a known
    obtain ⟨op, found, rfl⟩ := Option.map_eq_some_iff.mp known
    -- whichever time stands in for a clock that is not read
    obtain ⟨op', kept, advances⟩ := lawful.advances s event 0 op found
    exact ⟨op'.claimRevision, Option.map_eq_some_iff.mpr ⟨op', kept, rfl⟩, advances.revision⟩
  lapses := by
    intro s event a t known same ahead live
    obtain ⟨op, found, rfl⟩ := Option.map_eq_some_iff.mp known
    obtain ⟨op', kept, advances⟩ := lawful.advances s event t op found
    obtain ⟨row, held, pending, running⟩ := live
    have row_eq : row = op' := Option.some.inj ((Option.mem_def.mp held).symm.trans kept)
    obtain ⟨again, stored, equal⟩ := Option.map_eq_some_iff.mp same
    have again_eq : again = op' := Option.some.inj (stored.symm.trans kept)
    subst row_eq again_eq
    have reached : (r.clock event).getD t ≤ t := by
      cases clock : r.clock event with
      | none => exact le_rfl
      | some now => exact ahead now clock
    exact ⟨op, found, advances.alive equal running t reached pending⟩
  earlier := by
    intro s t t' live before
    obtain ⟨op, found, pending, running⟩ := live
    exact ⟨op, found, pending.earlier before, running⟩
  acquired := by
    intro s event revision acquired
    unfold ClaimedRow.leased at acquired ⊢
    dsimp only at acquired ⊢
    split at acquired
    next claimed =>
      obtain ⟨op, lease, now, found, taken⟩ := lawful.claims s event claimed
      rw [taken] at acquired ⊢
      refine ⟨acquired, op.claimRevision, ?_, ?_⟩
      · rw [found]
        rfl
      · cases acquired
        exact Int.lt_succ _
    · cases acquired
  guarded := by
    intro s event revision guard wrote
    obtain ⟨claim, kept, rfl⟩ := Option.map_eq_some_iff.mp guard
    obtain ⟨carried, own⟩ := Option.filter_eq_some_iff.mp kept
    obtain ⟨now, op, clock, found, fenced⟩ :=
      lawful.guards s event claim carried (by simpa using own) wrote
    refine ⟨now, clock, ?_, op, found, fenced.2.2.1, fenced.2.2.2⟩
    exact Option.map_eq_some_iff.mpr ⟨op, found, fenced.2.1⟩

end Rows

/-! ### The rows of a sandbox -/

section Lifecycle
variable {strict : Prop} {allowSimulated : Bool} {s s' : Lifecycle}

/-- The operation claim under which a transaction writes. -/
def LifecycleEvent.claim : LifecycleEvent → Option Claim
  | .renewLifecycle claim _ _ | .deferLifecycle claim _ _ | .reserveCreate claim _ _ _ _ _
  | .prepareCreateDispatch claim _ _ | .recordCreateUnknown claim _ | .recordCreateObservation claim _ _
  | .rejectUndispatchedCreate claim _ _ | .prepareDestroy claim _ _ | .recordDestroyUnknown claim _
  | .recordDestroyObservation claim _ _ | .preparePreviousAllocation claim _ _ _
  | .recordPreviousUnknown claim _ _ | .recordPreviousRelease claim _ _ => some claim
  | .claimLifecycle _ _ _ | .admitDestroy _ _ _ | .claimAllocation _ _ _ _ | .prepareLease _ _ _ _
  | .deferAllocation _ _ | .recordLeaseUnknown _ _ | .recordLeaseObservation _ _ _ _ _
  | .markHostRuntimeUnknown _ _ | .markPreviousEpochUnknown _ _ | .compactLifecycle _ | .registerHost _ _ => none

/-- A transaction that carries an operation claim writes only as its holder. -/
theorem lifecycleStep_guarded (s : Lifecycle) (event : LifecycleEvent) (claim : Claim)
    (carried : event.claim = some claim) (wrote : lifecycleStep allowSimulated s event ≠ s) :
    ∃ now, event.clock = some now ∧ Guarded s claim now (lifecycleStep allowSimulated s event) := by
  cases event with
  | renewLifecycle claim lease now =>
    cases carried
    exact ⟨now, rfl, commit_changed _ wrote fun _ h => renewLifecycle_guarded h⟩
  | deferLifecycle claim delay now =>
    cases carried
    exact ⟨now, rfl, commit_changed _ wrote fun _ h => deferLifecycle_guarded h⟩
  | reserveCreate claim id host expectedEpoch checks now =>
    cases carried
    exact ⟨now, rfl, commit_changed (reserveCreate s claim id host expectedEpoch checks now) wrote
      fun _ h => reserveCreate_guarded h⟩
  | prepareCreateDispatch claim checks now =>
    cases carried
    refine ⟨now, rfl, commit_changed _ wrote fun _ h => ?_⟩
    obtain ⟨_, h⟩ := map_fst_ok h
    exact prepareCreateDispatch_guarded h
  | recordCreateUnknown claim now =>
    cases carried
    exact ⟨now, rfl, commit_changed _ wrote fun _ h => recordCreateUnknown_guarded h⟩
  | recordCreateObservation claim observation now =>
    cases carried
    exact ⟨now, rfl, commit_changed _ wrote fun _ h => recordCreateObservation_guarded h⟩
  | rejectUndispatchedCreate claim reason now =>
    cases carried
    exact ⟨now, rfl, commit_changed _ wrote fun _ h => rejectUndispatchedCreate_guarded h⟩
  | prepareDestroy claim retryStop now =>
    cases carried
    refine ⟨now, rfl, commit_changed _ wrote fun _ h => ?_⟩
    obtain ⟨_, h⟩ := map_fst_ok h
    exact prepareDestroy_guarded h
  | recordDestroyUnknown claim now =>
    cases carried
    exact ⟨now, rfl, commit_changed _ wrote fun _ h => recordDestroyUnknown_guarded h⟩
  | recordDestroyObservation claim observation now =>
    cases carried
    exact ⟨now, rfl, commit_changed _ wrote fun _ h => recordDestroyObservation_guarded h⟩
  | preparePreviousAllocation claim host reportingEpoch now =>
    cases carried
    refine ⟨now, rfl, ?_⟩
    have either : lifecycleStep allowSimulated s (.preparePreviousAllocation claim host reportingEpoch now) = s ∨
        Guarded s claim now (lifecycleStep allowSimulated s (.preparePreviousAllocation claim host reportingEpoch now)) := by
      refine commit_changed (P := fun next => next = s ∨ Guarded s claim now next) _ wrote fun next h => ?_
      obtain ⟨_, h⟩ := map_fst_ok h
      exact preparePreviousAllocation_guarded h
    exact either.resolve_left wrote
  | recordPreviousUnknown claim request now =>
    cases carried
    exact ⟨now, rfl, commit_changed _ wrote fun _ h => recordPreviousUnknown_guarded h⟩
  | recordPreviousRelease claim observation now =>
    cases carried
    exact ⟨now, rfl, commit_changed _ wrote fun _ h => recordPreviousRelease_guarded h⟩
  | claimLifecycle id lease now => cases carried
  | admitDestroy id authorized now => cases carried
  | claimAllocation host epoch lease now => cases carried
  | prepareLease claim operation projectActive now => cases carried
  | deferAllocation claim now => cases carried
  | recordLeaseUnknown claim now => cases carried
  | recordLeaseObservation claim operation observation projectActive now => cases carried
  | markHostRuntimeUnknown host epoch => cases carried
  | markPreviousEpochUnknown host epoch => cases carried
  | compactLifecycle id => cases carried
  | registerHost host epoch => cases carried

/-- A `claim_next` on the row that committed. -/
def LifecycleEvent.Claims (id : OperationId) (s : Lifecycle) : LifecycleEvent → Prop
  | .claimLifecycle other lease now => other = id ∧ (Store.claimLifecycle s id lease now).isOk = true
  | _ => False

instance (id : OperationId) (s : Lifecycle) (event : LifecycleEvent) : Decidable (event.Claims id s) := by
  unfold LifecycleEvent.Claims
  split <;> infer_instance

def lifecycleRow (allowSimulated : Bool) (id : OperationId) : ClaimedRow Lifecycle LifecycleEvent where
  step := lifecycleStep allowSimulated
  clock := LifecycleEvent.clock
  row s := (s.op id).map (·.toOperation)
  claims s event := event.Claims id s
  claim := LifecycleEvent.claim

instance (allowSimulated : Bool) (id : OperationId) (s : Lifecycle) (event : LifecycleEvent) :
    Decidable ((lifecycleRow allowSimulated id).claims s event) :=
  inferInstanceAs (Decidable (event.Claims id s))

theorem lifecycleRow_lawful (allowSimulated : Bool) (id : OperationId) :
    (lifecycleRow allowSimulated id).Lawful id where
  advances := by
    intro s event now op found
    obtain ⟨row, held, rfl⟩ := Option.map_eq_some_iff.mp found
    obtain ⟨row', kept, advances⟩ := lifecycleStep_advances s event now id row held
    exact ⟨row'.toOperation, Option.map_eq_some_iff.mpr ⟨row', kept, rfl⟩, advances⟩
  claims := by
    intro s event claimed
    cases event with
    | claimLifecycle other lease now =>
      obtain ⟨rfl, ok⟩ := claimed
      cases result : claimLifecycle s other lease now with
      | error error =>
        rw [result] at ok
        cases ok
      | ok next =>
        obtain ⟨op, found, _, rows⟩ := updateLifecycleClaim_ok result
        refine ⟨op.toOperation, lease, now, ?_, ?_⟩
        · exact Option.map_eq_some_iff.mpr ⟨op, found, rfl⟩
        · have stepped : (lifecycleRow allowSimulated other).step s (.claimLifecycle other lease now) = next := by
            show commit s (claimLifecycle s other lease now) = next
            rw [result]
            rfl
          rw [stepped]
          show (next.op other).map (·.toOperation) = _
          rw [op_update rows (fun _ => rfl), found]
          rfl
    | _ => exact claimed.elim
  guards := by
    intro s event claim carried own wrote
    obtain ⟨now, clock, guarded⟩ := lifecycleStep_guarded s event claim carried wrote
    obtain ⟨op, found, fenced⟩ := guarded.holder
    rw [own] at found
    exact ⟨now, op.toOperation, clock, Option.map_eq_some_iff.mpr ⟨op, found, rfl⟩, fenced⟩

end Lifecycle
/-! ### The row of a command -/

section Execute
variable {enc : GuestModel.CommandEncoding}

/-- The claim of the command itself under which a transaction writes. -/
def ExecuteEvent.claim : ExecuteEvent → Option Claim
  | .renewExecute claim _ _ | .deferExecute claim _ _ | .prepareExecute claim _ _ _ _
  | .finishExecuteObservation claim _ _ _ => some claim
  | .claimExecute _ _ | .admitCancel _ | .claimCancel _ _ | .reconcileCancel _ _ | .assignRetention _ => none

theorem executeStep_guarded (row : ExecuteRow) (event : ExecuteEvent) (claim : Claim)
    (carried : event.claim = some claim) (wrote : executeStep enc row event ≠ row) :
    ∃ now, event.clock = some now ∧ ExecuteGuarded row claim now (executeStep enc row event) := by
  cases event with
  | renewExecute claim lease now =>
    cases carried
    exact ⟨now, rfl, commit_changed _ wrote fun _ h => renewExecute_guarded h⟩
  | deferExecute claim delay now =>
    cases carried
    exact ⟨now, rfl, commit_changed _ wrote fun _ h => deferExecute_guarded h⟩
  | prepareExecute claim host epoch authority now =>
    cases carried
    refine ⟨now, rfl, commit_changed _ wrote fun _ h => ?_⟩
    obtain ⟨_, h⟩ := map_fst_ok h
    exact prepareExecute_guarded h
  | finishExecuteObservation claim observation allowSimulated now =>
    cases carried
    exact ⟨now, rfl, commit_changed _ wrote fun _ h => finishExecuteObservation_guarded h⟩
  | claimExecute lease now => cases carried
  | admitCancel id => cases carried
  | claimCancel lease now => cases carried
  | reconcileCancel claim now => cases carried
  | assignRetention period => cases carried

def ExecuteEvent.Claims (row : ExecuteRow) : ExecuteEvent → Prop
  | .claimExecute lease now => (Store.claimExecute row lease now).isOk = true
  | _ => False

instance (row : ExecuteRow) (event : ExecuteEvent) : Decidable (event.Claims row) := by
  unfold ExecuteEvent.Claims
  split <;> infer_instance

def executeRow (enc : GuestModel.CommandEncoding) : ClaimedRow ExecuteRow ExecuteEvent where
  step := executeStep enc
  clock := ExecuteEvent.clock
  row row := some row.op.toOperation
  claims row event := event.Claims row
  claim := ExecuteEvent.claim

instance (enc : GuestModel.CommandEncoding) (row : ExecuteRow) (event : ExecuteEvent) :
    Decidable ((executeRow enc).claims row event) :=
  inferInstanceAs (Decidable (event.Claims row))

theorem executeRow_lawful (enc : GuestModel.CommandEncoding) (id : OperationId) : (executeRow enc).Lawful id where
  advances := by
    intro row event now op found
    cases found
    exact ⟨_, rfl, executeStep_advances row event now⟩
  claims := by
    intro row event claimed
    cases event with
    | claimExecute lease now =>
      have ok : (Store.claimExecute row lease now).isOk = true := claimed
      cases result : Store.claimExecute row lease now with
      | error error =>
        rw [result] at ok
        cases ok
      | ok next =>
        have stepped : (executeRow enc).step row (.claimExecute lease now) = next := by
          show commit row (Store.claimExecute row lease now) = next
          rw [result]
          rfl
        obtain ⟨_, rfl⟩ := updateClaim_ok result
        refine ⟨row.op.toOperation, lease, now, rfl, ?_⟩
        rw [stepped]
        rfl
    | _ => exact claimed.elim
  guards := by
    intro row event claim carried _ wrote
    obtain ⟨now, clock, guarded⟩ := executeStep_guarded row event claim carried wrote
    exact ⟨now, _, clock, rfl, guarded.fenced⟩

end Execute

/-! ### The rows of a command's cancellations -/

/-- A command with its cancellations: the one that is requested, and those that are complete. -/
structure Cancellations where
  command : ExecuteRow
  complete : List Operation

inductive CancelEvent where
  | command (event : ExecuteEvent)
  | renewCancel (claim : Claim) (lease : ℤ) (now : Time)
  | deferCancel (claim : Claim) (delay : ℤ) (now : Time)

namespace Cancellations

def rows (s : Cancellations) : List Operation := s.command.cancel.toList ++ s.complete

def row (s : Cancellations) (id : OperationId) : Option Operation := Table.find (·.id) s.rows id

/-- A completed cancellation of the command. -/
def completed (command : ExecuteRow) (id : OperationId) : Operation :=
  { id, projectId := command.op.projectId, sandboxId := command.op.sandboxId, kind := .cancel,
    status := .succeeded, claimRevision := 0, leaseExpiresAt := none, nextRetryAt := none,
    attemptCount := 0, completedAt := none }

/-- `admit_cancel` with the row that it inserts, under a new key. -/
def admitted (s : Cancellations) (id : OperationId) : Except DispatchError Cancellations := do
  ensure (s.row id = none) .query
  let command ← admitCancel s.command id
  pure
    { command
      complete :=
        if s.command.op.status.Terminal then completed s.command id :: s.complete else s.complete }

def reconciled (s : Cancellations) (claim : Claim) (now : Time) : Except DispatchError Cancellations := do
  let cancel ← okOr s.command.cancel .lostClaim
  let command ← reconcileCancel s.command claim now
  pure
    { command
      complete :=
        if command.cancel = none then
          { cancel with
            status := .succeeded, leaseExpiresAt := none, nextRetryAt := none, completedAt := some now } ::
            s.complete
        else s.complete }

/-- A transaction of the claim's holder on the requested cancellation. -/
def update (s : Cancellations) (claim : Claim) (now : Time) (change : Operation → Operation) :
    Except DispatchError Cancellations := do
  let cancel ← okOr s.command.cancel .lostClaim
  ensure (cancel.Fenced claim now) .lostClaim
  pure { s with command := { s.command with cancel := some (change cancel) } }

end Cancellations

def cancelStep (enc : GuestModel.CommandEncoding) (s : Cancellations) : CancelEvent → Cancellations
  | .command (.admitCancel id) => commit s (s.admitted id)
  | .command (.reconcileCancel claim now) => commit s (s.reconciled claim now)
  | .command event => { s with command := executeStep enc s.command event }
  | .renewCancel claim lease now => commit s (s.update claim now (·.renewClaim lease now))
  | .deferCancel claim delay now => commit s (s.update claim now (·.deferClaim delay now))

section Cancel
variable {enc : GuestModel.CommandEncoding} {s s' : Cancellations} {now : Time} {id : OperationId}

def CancelEvent.clock : CancelEvent → Option Time
  | .command event => event.clock
  | .renewCancel _ _ now | .deferCancel _ _ now => some now

/-- The claim of a cancellation under which a transaction writes. -/
def CancelEvent.claim : CancelEvent → Option Claim
  | .command (.reconcileCancel claim _) | .renewCancel claim _ _ | .deferCancel claim _ _ => some claim
  | .command _ => none

def CancelEvent.Claims (id : OperationId) (s : Cancellations) : CancelEvent → Prop
  | .command (.claimCancel lease now) =>
    (∃ cancel ∈ s.command.cancel, cancel.id = id) ∧ (Store.claimCancel s.command lease now).isOk = true
  | _ => False

instance (id : OperationId) (s : Cancellations) (event : CancelEvent) : Decidable (event.Claims id s) := by
  unfold CancelEvent.Claims
  split <;> infer_instance

/-- Every cancellation's row advances, and none is lost. -/
def CancelsAdvance (now : Time) (s s' : Cancellations) : Prop :=
  ∀ id op, s.row id = some op → ∃ op', s'.row id = some op' ∧ op.Advances now op'

theorem CancelsAdvance.refl (same : s'.rows = s.rows) : CancelsAdvance now s s' := by
  intro id op found
  refine ⟨op, ?_, .refl now op⟩
  unfold Cancellations.row
  rw [same]
  exact found

/-- The first row is written, under its own key. -/
theorem CancelsAdvance.head {op op' : Operation} {rest : List Operation} (before : s.rows = op :: rest)
    (after : s'.rows = op' :: rest) (advances : op.Advances now op') : CancelsAdvance now s s' := by
  intro id row found
  unfold Cancellations.row at found ⊢
  rw [before, Table.find_cons] at found
  rw [after, Table.find_cons, advances.id]
  split at found
  next same =>
    cases found
    exact ⟨op', if_pos same, advances⟩
  next other => exact ⟨row, (if_neg other).trans found, .refl now row⟩

/-- A row comes in under a new key. -/
theorem CancelsAdvance.insert {op : Operation} (fresh : s.row op.id = none) (rows : s'.rows = op :: s.rows) :
    CancelsAdvance now s s' := by
  intro id row found
  refine ⟨row, ?_, .refl now row⟩
  unfold Cancellations.row at fresh found ⊢
  rw [rows, Table.find_cons]
  split
  next same =>
    rw [same] at fresh
    rw [fresh] at found
    cases found
  · exact found

theorem admitted_advances (h : s.admitted id = .ok s') : CancelsAdvance now s s' := by
  unfold Cancellations.admitted at h
  obtain ⟨_, fresh, h⟩ := bind_ok.mp h
  have fresh : s.row id = none := ensure_ok.mp fresh
  obtain ⟨command, made, h⟩ := bind_ok.mp h
  rw [← pure_ok.mp h]
  unfold admitCancel at made
  obtain ⟨_, _, made⟩ := bind_ok.mp made
  obtain ⟨_, open_, made⟩ := bind_ok.mp made
  have open_ : s.command.cancel = none := ensure_ok.mp open_
  have rows : s.rows = s.complete := by
    unfold Cancellations.rows
    rw [open_]
    rfl
  split at made
  next done =>
    rw [if_pos done, ← pure_ok.mp made]
    have fresh : s.row (Cancellations.completed s.command id).id = none := fresh
    refine .insert fresh ?_
    rw [rows]
    unfold Cancellations.rows
    rw [open_]
    rfl
  next running =>
    rw [if_neg running, ← pure_ok.mp made, ← rows]
    exact .insert fresh rfl

/-- A transaction of the holder of a live cancellation claim. -/
structure CancelGuarded (s : Cancellations) (claim : Claim) (now : Time) (s' : Cancellations) : Prop where
  holder : ∃ cancel, s.command.cancel = some cancel ∧ cancel.Fenced claim now
  advances : CancelsAdvance now s s'

theorem rows_of_cancel {cancel : Operation} (found : s.command.cancel = some cancel) :
    s.rows = cancel :: s.complete := by
  unfold Cancellations.rows
  rw [found]
  rfl

theorem reconciled_guarded {claim : Claim} (h : s.reconciled claim now = .ok s') :
    CancelGuarded s claim now s' := by
  unfold Cancellations.reconciled at h
  obtain ⟨cancel, found, h⟩ := bind_ok.mp h
  obtain ⟨command, made, h⟩ := bind_ok.mp h
  rw [← pure_ok.mp h]
  unfold reconcileCancel at made
  obtain ⟨again, same, made⟩ := bind_ok.mp made
  have found := okOr_ok.mp found
  have same := okOr_ok.mp same
  rw [found] at same
  cases same
  obtain ⟨_, fenced, made⟩ := bind_ok.mp made
  have fenced := ensure_ok.mp fenced
  refine ⟨⟨cancel, found, fenced⟩, ?_⟩
  rw [← pure_ok.mp made]
  dsimp only
  by_cases done : (s.command.op.revoke now).status.Terminal
  · rw [if_pos done, if_pos rfl]
    exact .head (rows_of_cancel found) rfl (.of_fenced fenced rfl le_rfl le_rfl)
  · rw [if_neg done, if_neg (Option.some_ne_none _)]
    exact .head (rows_of_cancel found) rfl (.of_fenced fenced rfl le_rfl le_rfl)

theorem update_guarded {claim : Claim} (change : Operation → Operation) (keeps : ∀ op, (change op).id = op.id)
    (attempts : ∀ op, (change op).attemptCount = op.attemptCount)
    (revision : ∀ op, (change op).claimRevision = op.claimRevision)
    (h : s.update claim now change = .ok s') : CancelGuarded s claim now s' := by
  unfold Cancellations.update at h
  obtain ⟨cancel, found, h⟩ := bind_ok.mp h
  obtain ⟨_, fenced, h⟩ := bind_ok.mp h
  have found := okOr_ok.mp found
  have fenced := ensure_ok.mp fenced
  rw [← pure_ok.mp h]
  refine ⟨⟨cancel, found, fenced⟩, .head (rows_of_cancel found) rfl ?_⟩
  exact .of_fenced fenced (keeps cancel) (attempts cancel).ge (revision cancel).ge

theorem claimCancel_ok {row row' : ExecuteRow} {lease : ℤ} (h : Store.claimCancel row lease now = .ok row') :
    ∃ cancel, row.cancel = some cancel ∧ cancel.Claimable now ∧
      row' = { row with cancel := some (cancel.claimNext lease now) } := by
  unfold Store.claimCancel at h
  obtain ⟨cancel, found, h⟩ := bind_ok.mp h
  obtain ⟨_, claimable, h⟩ := bind_ok.mp h
  exact ⟨cancel, okOr_ok.mp found, ensure_ok.mp claimable, (pure_ok.mp h).symm⟩

/-- The transactions of the command's own controllers leave its cancellation alone. -/
theorem prepareExecute_cancel {row row' : ExecuteRow} {claim : Claim} {host : HostId} {epoch : ℤ}
    {authority : Authority} {action : ExecuteAction}
    (h : prepareExecute enc row claim host epoch authority now = .ok (row', action)) :
    row'.cancel = row.cancel := by
  unfold prepareExecute at h
  obtain ⟨_, _, h⟩ := bind_ok.mp h
  split at h
  · obtain ⟨_, _, h⟩ := bind_ok.mp h
    cases pure_ok.mp h
    rfl
  · split at h
    · obtain ⟨_, _, h⟩ := bind_ok.mp h
      cases pure_ok.mp h
      rfl
    obtain ⟨_, _, h⟩ := bind_ok.mp h
    split at h
    · obtain ⟨_, _, h⟩ := bind_ok.mp h
      obtain ⟨_, _, h⟩ := bind_ok.mp h
      cases pure_ok.mp h
      rfl
    · cases pure_ok.mp h
      rfl

theorem finishExecuteObservation_cancel {row row' : ExecuteRow} {claim : Claim}
    {observation : Option CommandObservation} {allowSimulated : Bool}
    (h : finishExecuteObservation enc row claim observation allowSimulated now = .ok row') :
    row'.cancel = row.cancel := by
  unfold finishExecuteObservation at h
  obtain ⟨_, _, h⟩ := bind_ok.mp h
  obtain ⟨_, _, h⟩ := bind_ok.mp h
  obtain ⟨_, _, h⟩ := bind_ok.mp h
  rw [← pure_ok.mp h]

theorem assignRetention_cancel {row row' : ExecuteRow} {period : ℤ} (h : assignRetention row period = .ok row') :
    row'.cancel = row.cancel := by
  unfold assignRetention at h
  obtain ⟨_, _, h⟩ := bind_ok.mp h
  obtain ⟨_, _, h⟩ := bind_ok.mp h
  rw [← pure_ok.mp h]

theorem cancelStep_advances (s : Cancellations) (event : CancelEvent) (now : Time) :
    CancelsAdvance (event.clock.getD now) s (cancelStep enc s event) := by
  have still : CancelsAdvance (event.clock.getD now) s s := .refl rfl
  have apart : ∀ {command : ExecuteRow}, command.cancel = s.command.cancel →
      CancelsAdvance (event.clock.getD now) s { s with command } := by
    intro command same
    refine .refl ?_
    unfold Cancellations.rows
    rw [same]
  cases event with
  | command event =>
    cases event with
    | claimExecute lease now =>
      refine apart (commit_keeps (P := fun next : ExecuteRow => next.cancel = s.command.cancel) rfl fun _ h => ?_)
      obtain ⟨_, rfl⟩ := updateClaim_ok h
      rfl
    | renewExecute claim lease now =>
      refine apart (commit_keeps (P := fun next : ExecuteRow => next.cancel = s.command.cancel) rfl fun _ h => ?_)
      obtain ⟨_, rfl⟩ := updateClaim_ok h
      rfl
    | deferExecute claim delay now =>
      refine apart (commit_keeps (P := fun next : ExecuteRow => next.cancel = s.command.cancel) rfl fun _ h => ?_)
      obtain ⟨_, rfl⟩ := updateClaim_ok h
      rfl
    | prepareExecute claim host epoch authority now =>
      refine apart (commit_keeps (P := fun next : ExecuteRow => next.cancel = s.command.cancel) rfl fun _ h => ?_)
      obtain ⟨_, h⟩ := map_fst_ok h
      exact prepareExecute_cancel h
    | finishExecuteObservation claim observation allowSimulated now =>
      exact apart (commit_keeps (P := fun next : ExecuteRow => next.cancel = s.command.cancel) rfl
        fun _ h => finishExecuteObservation_cancel h)
    | assignRetention period =>
      exact apart (commit_keeps (P := fun next : ExecuteRow => next.cancel = s.command.cancel) rfl
        fun _ h => assignRetention_cancel h)
    | admitCancel id => exact commit_keeps still fun _ h => admitted_advances h
    | reconcileCancel claim now => exact commit_keeps still fun _ h => (reconciled_guarded h).advances
    | claimCancel lease now =>
      refine commit_keeps (P := fun next : ExecuteRow => CancelsAdvance now s { s with command := next })
        still fun _ h => ?_
      obtain ⟨cancel, found, claimable, rfl⟩ := claimCancel_ok h
      exact .head (rows_of_cancel found) rfl (claimNext_advances claimable)
  | renewCancel claim lease now =>
    exact commit_keeps still fun _ h =>
      (update_guarded (·.renewClaim lease now) (fun _ => rfl) (fun _ => rfl) (fun _ => rfl) h).advances
  | deferCancel claim delay now =>
    exact commit_keeps still fun _ h =>
      (update_guarded (·.deferClaim delay now) (fun _ => rfl) (fun _ => rfl) (fun _ => rfl) h).advances

theorem cancelStep_guarded (s : Cancellations) (event : CancelEvent) (claim : Claim)
    (carried : event.claim = some claim) (wrote : cancelStep enc s event ≠ s) :
    ∃ now, event.clock = some now ∧ CancelGuarded s claim now (cancelStep enc s event) := by
  cases event with
  | command event =>
    cases event with
    | reconcileCancel claim now =>
      cases carried
      exact ⟨now, rfl, commit_changed _ wrote fun _ h => reconciled_guarded h⟩
    | _ => cases carried
  | renewCancel claim lease now =>
    cases carried
    exact ⟨now, rfl, commit_changed _ wrote fun _ h =>
      update_guarded (·.renewClaim lease now) (fun _ => rfl) (fun _ => rfl) (fun _ => rfl) h⟩
  | deferCancel claim delay now =>
    cases carried
    exact ⟨now, rfl, commit_changed _ wrote fun _ h =>
      update_guarded (·.deferClaim delay now) (fun _ => rfl) (fun _ => rfl) (fun _ => rfl) h⟩

def cancelRow (enc : GuestModel.CommandEncoding) (id : OperationId) : ClaimedRow Cancellations CancelEvent where
  step := cancelStep enc
  clock := CancelEvent.clock
  row s := s.row id
  claims s event := event.Claims id s
  claim := CancelEvent.claim

instance (enc : GuestModel.CommandEncoding) (id : OperationId) (s : Cancellations) (event : CancelEvent) :
    Decidable ((cancelRow enc id).claims s event) :=
  inferInstanceAs (Decidable (event.Claims id s))

theorem cancelRow_lawful (enc : GuestModel.CommandEncoding) (id : OperationId) : (cancelRow enc id).Lawful id where
  advances := by
    intro s event now op found
    exact cancelStep_advances s event now id op found
  claims := by
    intro s event claimed
    cases event with
    | command event =>
      cases event with
      | claimCancel lease now =>
        obtain ⟨⟨cancel, held, rfl⟩, ok⟩ := claimed
        cases result : Store.claimCancel s.command lease now with
        | error error =>
          rw [result] at ok
          cases ok
        | ok next =>
          have stepped : (cancelRow enc cancel.id).step s (.command (.claimCancel lease now)) = { s with command := next } := by
            show { s with command := commit s.command (Store.claimCancel s.command lease now) } = _
            rw [result]
            rfl
          obtain ⟨same, found, _, rfl⟩ := claimCancel_ok result
          cases (Option.mem_def.mp held).symm.trans found
          refine ⟨cancel, lease, now, ?_, ?_⟩
          · show Table.find (·.id) s.rows cancel.id = some cancel
            rw [rows_of_cancel found, Table.find_cons, if_pos rfl]
          · rw [stepped]
            exact (Table.find_cons).trans (if_pos rfl)
      | _ => exact claimed.elim
    | _ => exact claimed.elim
  guards := by
    intro s event claim carried own wrote
    obtain ⟨now, clock, guarded⟩ := cancelStep_guarded s event claim carried wrote
    obtain ⟨cancel, found, fenced⟩ := guarded.holder
    refine ⟨now, cancel, clock, ?_, fenced⟩
    have named : cancel.id = id := fenced.1.trans own
    show Table.find (·.id) s.rows id = some cancel
    rw [rows_of_cancel found, Table.find_cons, if_pos named]

end Cancel
end HudsonSandbox.Store
