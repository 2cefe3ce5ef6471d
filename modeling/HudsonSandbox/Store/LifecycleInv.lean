import HudsonSandbox.Store.Release

/-!
# What every lifecycle transaction keeps

A sandbox has one create, one owner of its transition, and a release whose operation row is
finished and is not written again.
-/

namespace HudsonSandbox.Store
open Checked LiveOutput Supervisor AllocationAuthority Run

/-- What holds of each operation row by itself, in the sandbox whose create is `c`. -/
structure LifecycleRowInv (sandbox : SandboxRow) (c : OperationId) (op : LifecycleOperation) :
    Prop where
  projectId : op.projectId = sandbox.projectId
  sandboxId : op.sandboxId = sandbox.id
  kind : op.kind = .create ∧ op.id = c ∨ op.kind = .destroy ∧ op.id ≠ c
  attempts : 0 ≤ op.attemptCount
  revision : 0 ≤ op.claimRevision
  claimed : op.leaseExpiresAt ≠ none → 0 < op.claimRevision
  finished : op.status.Terminal → op.Finished

/-- A create that no controller works on any more, since a destroy took it over. -/
def LifecycleOperation.Parked (op : LifecycleOperation) : Prop :=
  op.phase = some .cleanupOwnedByDestroy ∧ op.status = .unknown ∧ op.leaseExpiresAt = none ∧
    op.nextRetryAt = none

def Lifecycle.CreateFinished (s : Lifecycle) (c : OperationId) : Prop := ∃ op ∈ s.op c, op.Finished

def Lifecycle.CreateParked (s : Lifecycle) (c : OperationId) : Prop := ∃ op ∈ s.op c, op.Parked

/-- The destroy that owns the transition, and what it still owes the create. -/
def Lifecycle.Owns (s : Lifecycle) (c : OperationId) (d : LifecycleOperation) : Prop :=
  d.kind = .destroy ∧
    (d.supersedesOperationId = none ∧ s.CreateFinished c ∨
      d.supersedesOperationId = some c ∧ s.CreateParked c)

/-- The permit is the one that placement issued with the allocation. -/
structure Permitted (c : OperationId) (sandbox : SandboxRow) (a : AllocationRow) (p : Permit) :
    Prop where
  host : p.host = a.hostId
  project : p.project = sandbox.projectId
  sandbox : p.sandbox = sandbox.id
  allocation : p.allocation = a.id
  createOperation : p.createOperation = c
  generation : p.generation = a.generation
  originalEpoch : p.originalEpoch = a.supervisorEpoch

def Rejected (c : OperationId) (row : LifecycleOperation) (receipt : LifecycleEvidence) : Prop :=
  receipt.phase = .rejectedBeforeDispatch ∧ row.id = c ∧
    receipt.dispatchIntentAbsent = some true ∧ row.attemptCount = 0 ∧ row.status = .failed ∧
    row.phase = some .rejectedBeforeDispatch

/-- A release that a host confirmed. Only `strict` states promise that the row dispatched the
request that led to it. -/
structure Confirmed (strict : Prop) (allowSimulated : Bool) (epoch : ℤ) (sandbox : SandboxRow)
    (a : AllocationRow) (row : LifecycleOperation) (receipt : LifecycleEvidence) : Prop where
  phase : receipt.phase = .allocationReleased
  host : receipt.hostId = some a.hostId
  project : receipt.projectId = some sandbox.projectId
  sandbox : receipt.sandboxId = some sandbox.id
  allocation : receipt.allocationId = some a.id
  generation : receipt.generation = some a.generation
  supervisorEpoch : receipt.supervisorEpoch = some a.supervisorEpoch
  reporting : ∀ v ∈ receipt.reportingEpoch, a.supervisorEpoch ≤ v ∧ v ≤ epoch
  claim : ∃ v, receipt.claimRevision = some v ∧ 0 < v ∧ v ≤ row.claimRevision
  observed : ∃ v, receipt.observedUnixMs = some v ∧ 0 < v
  simulated : ∃ v, receipt.simulated = some v ∧ (v = true → allowSimulated = true)
  attempted : 0 < row.attemptCount ∨ row.kind = .destroy ∧ ¬strict

/-- The recorded release names a finished row that holds it among its receipts. -/
structure Recorded (strict : Prop) (allowSimulated : Bool) (c : OperationId) (s : Lifecycle)
    (a : AllocationRow) (row : LifecycleOperation) (receipt : LifecycleEvidence) : Prop where
  operation : receipt.operationId = some row.id
  stored : s.op row.id = some row
  finished : row.Finished
  entry : receipt ∈ row.attemptReceipts
  create : s.CreateFinished c
  legitimate : Rejected c row receipt ∨
    Confirmed strict allowSimulated (s.hostEpoch a.hostId) s.sandbox a row receipt

structure LifecycleAllocationInv (strict : Prop) (allowSimulated : Bool) (c : OperationId)
    (s : Lifecycle) (a : AllocationRow) : Prop where
  permit : ∃ p, s.permit = some p ∧ Permitted c s.sandbox a p
  epoch : a.supervisorEpoch ≤ s.hostEpoch a.hostId
  status : a.status = .released ↔ a.releasedAt ≠ none
  released : a.releasedAt ≠ none → ∃ row receipt, a.releaseEvidence = some receipt ∧
    Recorded strict allowSimulated c s a row receipt

structure LifecycleInv (strict : Prop) (allowSimulated : Bool) (c : OperationId) (s : Lifecycle) :
    Prop where
  rows : ∀ id op, s.op id = some op → LifecycleRowInv s.sandbox c op
  create : ∃ op, s.op c = some op
  idle : s.sandbox.activeTransitionOperationId = none → s.CreateFinished c
  active : ∀ id, s.sandbox.activeTransitionOperationId = some id → id ≠ c →
    ∃ d, s.op id = some d ∧ s.Owns c d
  destroyed : s.sandbox.observedState = .destroyed → s.sandbox.activeTransitionOperationId = none
  current : ∀ id, s.sandbox.currentAllocationId = some id →
    ∃ a, s.allocation = some a ∧ a.id = id ∧ a.releasedAt = none
  placed : s.sandbox.generation = 0 → s.allocation = none
  allocation : ∀ a, s.allocation = some a → LifecycleAllocationInv strict allowSimulated c s a

section Invariant
variable {strict : Prop} {allowSimulated : Bool} {c : OperationId} {s s' : Lifecycle}
  {op : LifecycleOperation} {a : AllocationRow} {claim : Claim} {kind : Kind} {now : Time}

/-! ### Rows -/

theorem op_id {id : OperationId} (found : s.op id = some op) : op.id = id := by
  have key := Table.find_key found
  exact key

theorem op_update {id : OperationId} {change : LifecycleOperation → LifecycleOperation}
    (rows : s'.operations = s.updateOperation id change) (keeps : ∀ row, (change row).id = row.id) :
    s'.op id = (s.op id).map change := by
  unfold Lifecycle.op
  rw [rows]
  exact Table.find_update keeps

theorem op_update_of_ne {id other : OperationId} {change : LifecycleOperation → LifecycleOperation}
    (rows : s'.operations = s.updateOperation id change) (keeps : ∀ row, (change row).id = row.id)
    (different : other ≠ id) : s'.op other = s.op other := by
  unfold Lifecycle.op
  rw [rows]
  exact Table.find_update_of_ne keeps different

theorem unreleased_eq {id : AllocationId} (found : s.unreleased id = some a) :
    s.allocation = some a ∧ a.id = id ∧ a.releasedAt = none := by
  unfold Lifecycle.unreleased at found
  simpa using Option.filter_eq_some_iff.mp found

theorem not_finished_of_live (live : op.status.Live) : ¬op.Finished :=
  fun finished => Status.not_terminal_of_live live finished.1

theorem lease_of_fenced (fenced : op.Fenced claim now) : op.leaseExpiresAt ≠ none := by
  obtain ⟨t, found, _⟩ := fenced.2.2.1
  rw [found]
  exact Option.some_ne_none t

theorem not_parked_of_fenced (fenced : op.Fenced claim now) : ¬op.Parked :=
  fun parked => lease_of_fenced fenced parked.2.2.1

/-- Everything the claim holder's context establishes. -/
structure Holds (s : Lifecycle) (claim : Claim) (kind : Kind) (reportingEpoch : Option ℤ)
    (now : Time) (ctx : Context) : Prop where
  found : s.op claim.operationId = some ctx.op
  fenced : ctx.op.Fenced claim now
  parked : kind = .destroy → ∀ previous ∈ ctx.op.supersedesOperationId, s.Parked previous
  kind : ctx.op.kind = kind
  active : s.sandbox.activeTransitionOperationId = some claim.operationId
  current : s.sandbox.currentAllocationId = some ctx.allocation.id
  allocation : s.allocation = some ctx.allocation
  unreleased : ctx.allocation.releasedAt = none
  speaks : SpeaksFor reportingEpoch (s.hostEpoch ctx.allocation.hostId) ctx.allocation.supervisorEpoch
  owner : ctx.owner = contextOwner ctx.op ctx.allocation claim

theorem contextAtEpoch_ok {reportingEpoch : Option ℤ} {ctx : Context}
    (h : contextAtEpoch s claim kind reportingEpoch now = .ok ctx) :
    Holds s claim kind reportingEpoch now ctx := by
  unfold contextAtEpoch at h
  obtain ⟨op, found, h⟩ := bind_ok.mp h
  obtain ⟨_, fenced, h⟩ := bind_ok.mp h
  obtain ⟨_, parked, h⟩ := bind_ok.mp h
  obtain ⟨_, owned, h⟩ := bind_ok.mp h
  obtain ⟨current, pointer, h⟩ := bind_ok.mp h
  obtain ⟨allocation, held, h⟩ := bind_ok.mp h
  obtain ⟨_, speaks, h⟩ := bind_ok.mp h
  obtain ⟨stored, same, unreleased⟩ := unreleased_eq (okOr_ok.mp held)
  rw [← pure_ok.mp h]
  exact ⟨okOr_ok.mp found, ensure_ok.mp fenced, ensure_ok.mp parked, (ensure_ok.mp owned).1,
    (ensure_ok.mp owned).2, same ▸ okOr_ok.mp pointer, stored, unreleased, (ensure_ok.mp speaks).2, rfl⟩

/-! ### Frames -/

/-- Finished rows stay, apart from the payload that compaction erases, and epochs only grow. -/
structure Persists (s s' : Lifecycle) : Prop where
  rows : ∀ id op, s.op id = some op → op.Finished →
    ∃ supersedes, s'.op id = some { op with supersedesOperationId := supersedes }
  epochs : ∀ host, s.hostEpoch host ≤ s'.hostEpoch host
  projectId : s'.sandbox.projectId = s.sandbox.projectId
  sandboxId : s'.sandbox.id = s.sandbox.id

theorem Persists.createFinished (frame : Persists s s') (h : s.CreateFinished c) :
    s'.CreateFinished c := by
  obtain ⟨op, found, finished⟩ := h
  obtain ⟨_, kept⟩ := frame.rows c op found finished
  exact ⟨_, kept, finished⟩

theorem Persists.recorded {a' : AllocationRow} {row : LifecycleOperation} {receipt : LifecycleEvidence}
    (frame : Persists s s') (same : a'.toAllocation = a.toAllocation)
    (h : Recorded strict allowSimulated c s a row receipt) :
    ∃ row', Recorded strict allowSimulated c s' a' row' receipt := by
  obtain ⟨operation, stored, finished, receipts, create, legitimate⟩ := h
  obtain ⟨supersedes, kept⟩ := frame.rows _ row stored finished
  refine ⟨{ row with supersedesOperationId := supersedes }, operation, kept, finished, receipts, frame.createFinished create, ?_⟩
  rcases legitimate with rejected | confirmed
  · exact .inl rejected
  · obtain ⟨phase, host, project, sandbox, allocation, generation, epoch, reporting, claim, observed,
      simulated, attempted⟩ := confirmed
    right
    rw [same]
    refine ⟨phase, ?_, ?_, ?_, ?_, ?_, ?_, ?_, claim, observed, simulated, attempted⟩
    · rw [host, same]
    · rw [project, frame.projectId]
    · rw [sandbox, frame.sandboxId]
    · rw [allocation, same]
    · rw [generation, same]
    · rw [epoch, same]
    · intro v found
      rw [same]
      exact ⟨(reporting v found).1, (reporting v found).2.trans (frame.epochs _)⟩

/-- An allocation whose maintenance, but not its identity or release, changed. -/
structure SameAllocation (a a' : AllocationRow) : Prop where
  identity : a'.toAllocation = a.toAllocation
  releasedAt : a'.releasedAt = a.releasedAt
  evidence : a'.releaseEvidence = a.releaseEvidence
  status : a'.status = .released ↔ a.status = .released

theorem Persists.allocation {a' : AllocationRow} (frame : Persists s s')
    (permit : s'.permit = s.permit) (same : SameAllocation a a')
    (h : LifecycleAllocationInv strict allowSimulated c s a) :
    LifecycleAllocationInv strict allowSimulated c s' a' := by
  obtain ⟨identity, releasedAt, evidence, status⟩ := same
  refine ⟨?_, ?_, ?_, ?_⟩
  · obtain ⟨p, issued, host, project, sandbox, allocation, operation, generation, epoch⟩ := h.permit
    refine ⟨p, permit.trans issued, ?_, ?_, ?_, ?_, operation, ?_, ?_⟩
    · rw [host, identity]
    · rw [project, frame.projectId]
    · rw [sandbox, frame.sandboxId]
    · rw [allocation, identity]
    · rw [generation, identity]
    · rw [epoch, identity]
  · rw [identity]
    exact h.epoch.trans (frame.epochs _)
  · rw [status, releasedAt]
    exact h.status
  · intro released
    rw [releasedAt] at released
    obtain ⟨row, receipt, recorded, legitimate⟩ := h.released released
    obtain ⟨row', kept⟩ := frame.recorded identity legitimate
    exact ⟨row', receipt, evidence.trans recorded, kept⟩

/-! ### Steps that neither finish nor admit an operation -/

/-- A row some claimant may still change. -/
def LifecycleOperation.Open (op : LifecycleOperation) : Prop := ¬op.status.Terminal ∧ ¬op.Parked

theorem open_of_fenced (fenced : op.Fenced claim now) : op.Open :=
  ⟨Status.not_terminal_of_live fenced.2.2.2, not_parked_of_fenced fenced⟩

structure Touched (op op' : LifecycleOperation) : Prop where
  id : op'.id = op.id
  projectId : op'.projectId = op.projectId
  sandboxId : op'.sandboxId = op.sandboxId
  kind : op'.kind = op.kind
  supersedes : op'.supersedesOperationId = op.supersedesOperationId
  attempts : op.attemptCount ≤ op'.attemptCount
  revision : op.claimRevision ≤ op'.claimRevision
  claimed : op'.leaseExpiresAt ≠ none → op.leaseExpiresAt ≠ none ∨ op.claimRevision < op'.claimRevision
  live : ¬op'.status.Terminal

def Moves (op op' : LifecycleOperation) : Prop := op' = op ∨ op.Open ∧ Touched op op'

structure SameSandbox (row row' : SandboxRow) : Prop where
  id : row'.id = row.id
  projectId : row'.projectId = row.projectId
  generation : row'.generation = row.generation
  current : row'.currentAllocationId = row.currentAllocationId
  active : row'.activeTransitionOperationId = row.activeTransitionOperationId
  destroyed : row'.observedState = .destroyed → row.observedState = .destroyed

structure Touch (s s' : Lifecycle) : Prop where
  rows : ∀ id, Option.Rel Moves (s.op id) (s'.op id)
  sandbox : SameSandbox s.sandbox s'.sandbox
  allocation : Option.Rel SameAllocation s.allocation s'.allocation
  permit : s'.permit = s.permit
  epochs : ∀ host, s.hostEpoch host ≤ s'.hostEpoch host

theorem Touch.row {id : OperationId} (touch : Touch s s') (found : s.op id = some op) :
    ∃ op', s'.op id = some op' ∧ Moves op op' := by
  have moves := touch.rows id
  rw [found] at moves
  cases after : s'.op id with
  | none => rw [after] at moves; cases moves
  | some op' =>
    rw [after] at moves
    cases moves with
    | some moves => exact ⟨op', rfl, moves⟩

theorem Touch.row_of {id : OperationId} {op' : LifecycleOperation} (touch : Touch s s')
    (found : s'.op id = some op') : ∃ op, s.op id = some op ∧ Moves op op' := by
  have moves := touch.rows id
  rw [found] at moves
  cases before : s.op id with
  | none => rw [before] at moves; cases moves
  | some op =>
    rw [before] at moves
    cases moves with
    | some moves => exact ⟨op, rfl, moves⟩

theorem Touch.same {id : OperationId} (touch : Touch s s') (found : s.op id = some op)
    (closed : ¬op.Open) : s'.op id = some op := by
  obtain ⟨op', kept, rfl | ⟨open_, _⟩⟩ := touch.row found
  · exact kept
  · exact absurd open_ closed

theorem Touch.persists (touch : Touch s s') : Persists s s' :=
  ⟨fun _ op found finished =>
      ⟨op.supersedesOperationId, touch.same found fun open_ => open_.1 finished.1⟩,
    touch.epochs, touch.sandbox.projectId, touch.sandbox.id⟩

theorem Touched.rowInv {sandbox sandbox' : SandboxRow} {op' : LifecycleOperation}
    (touched : Touched op op') (projectId : sandbox'.projectId = sandbox.projectId)
    (sandboxId : sandbox'.id = sandbox.id) (inv : LifecycleRowInv sandbox c op) :
    LifecycleRowInv sandbox' c op' := by
  have attempts := touched.attempts
  have revision := touched.revision
  have before := inv.attempts
  have claimed := inv.revision
  refine ⟨?_, ?_, ?_, by omega, by omega, ?_, fun terminal => absurd terminal touched.live⟩
  · rw [touched.projectId, projectId]
    exact inv.projectId
  · rw [touched.sandboxId, sandboxId]
    exact inv.sandboxId
  · rw [touched.kind, touched.id]
    exact inv.kind
  · intro held
    rcases touched.claimed held with earlier | raised
    · have positive := inv.claimed earlier
      omega
    · omega

theorem LifecycleRowInv.congr {sandbox sandbox' : SandboxRow}
    (inv : LifecycleRowInv sandbox c op) (projectId : sandbox'.projectId = sandbox.projectId)
    (sandboxId : sandbox'.id = sandbox.id) : LifecycleRowInv sandbox' c op :=
  ⟨inv.projectId.trans projectId.symm, inv.sandboxId.trans sandboxId.symm, inv.kind, inv.attempts,
    inv.revision, inv.claimed, inv.finished⟩

theorem LifecycleInv.touch (inv : LifecycleInv strict allowSimulated c s) (touch : Touch s s') :
    LifecycleInv strict allowSimulated c s' := by
  have frame := touch.persists
  obtain ⟨_, projectId, generation, current, active, destroyed⟩ := touch.sandbox
  refine ⟨?_, ?_, ?_, ?_, ?_, ?_, ?_, ?_⟩
  · intro id op' found
    obtain ⟨op, before, rfl | ⟨_, touched⟩⟩ := touch.row_of found
    · exact (inv.rows id op' before).congr projectId touch.sandbox.id
    · exact touched.rowInv projectId touch.sandbox.id (inv.rows id op before)
  · obtain ⟨op, found⟩ := inv.create
    obtain ⟨op', kept, _⟩ := touch.row found
    exact ⟨op', kept⟩
  · intro idle
    exact frame.createFinished (inv.idle (active ▸ idle))
  · intro id owner other
    obtain ⟨d, found, destroy, owed⟩ := inv.active id (active ▸ owner) other
    obtain ⟨d', kept, moves⟩ := touch.row found
    have same : d'.kind = d.kind ∧ d'.supersedesOperationId = d.supersedesOperationId := by
      rcases moves with rfl | ⟨_, touched⟩
      · exact ⟨rfl, rfl⟩
      · exact ⟨touched.kind, touched.supersedes⟩
    refine ⟨d', kept, same.1.trans destroy, ?_⟩
    rw [same.2]
    rcases owed with ⟨free, finished⟩ | ⟨owes, op, found, parked⟩
    · exact .inl ⟨free, frame.createFinished finished⟩
    · exact .inr ⟨owes, op, touch.same found fun open_ => open_.2 parked, parked⟩
  · intro gone
    rw [active]
    exact inv.destroyed (destroyed gone)
  · intro id pointer
    obtain ⟨a, held, same, unreleased⟩ := inv.current id (current ▸ pointer)
    have moves := touch.allocation
    rw [held] at moves
    cases after : s'.allocation with
    | none => rw [after] at moves; cases moves
    | some a' =>
      rw [after] at moves
      cases moves with
      | some kept =>
        refine ⟨a', rfl, ?_, kept.releasedAt.trans unreleased⟩
        rw [kept.identity]
        exact same
  · intro zero
    have moves := touch.allocation
    rw [inv.placed (generation ▸ zero)] at moves
    cases after : s'.allocation with
    | none => rfl
    | some a' => rw [after] at moves; cases moves
  · intro a' held
    have moves := touch.allocation
    rw [held] at moves
    cases before : s.allocation with
    | none => rw [before] at moves; cases moves
    | some a =>
      rw [before] at moves
      cases moves with
      | some kept => exact frame.allocation touch.permit kept (inv.allocation a before)

theorem SameAllocation.refl : SameAllocation a a := ⟨rfl, rfl, rfl, Iff.rfl⟩

theorem sameAllocation_refl {held : Option AllocationRow} : Option.Rel SameAllocation held held := by
  cases held with
  | none => exact .none
  | some a => exact .some .refl

theorem SameSandbox.refl {row : SandboxRow} : SameSandbox row row :=
  ⟨rfl, rfl, rfl, rfl, rfl, fun gone => gone⟩

theorem SameSandbox.uncertain {row : SandboxRow} : SameSandbox row row.uncertain :=
  ⟨rfl, rfl, rfl, rfl, rfl, fun gone => (by cases gone)⟩

theorem rows_refl (rows : s'.operations = s.operations) (id : OperationId) :
    Option.Rel Moves (s.op id) (s'.op id) := by
  unfold Lifecycle.op
  rw [rows]
  cases Table.find (fun row : LifecycleOperation => row.id) s.operations id with
  | none => exact .none
  | some op => exact .some (.inl rfl)

theorem rows_update {id : OperationId} {change : LifecycleOperation → LifecycleOperation}
    (rows : s'.operations = s.updateOperation id change) (found : s.op id = some op) (open_ : op.Open)
    (keeps : ∀ row, (change row).id = row.id) (touched : Touched op (change op)) (other : OperationId) : Option.Rel Moves (s.op other) (s'.op other) := by
  by_cases same : other = id
  · subst same
    rw [op_update rows keeps, found]
    exact .some (.inr ⟨open_, touched⟩)
  · rw [op_update_of_ne rows keeps same]
    cases s.op other with
    | none => exact .none
    | some op => exact .some (.inl rfl)

theorem updateLifecycleClaim_touch {id : OperationId} {allowed : LifecycleOperation → Prop}
    [DecidablePred allowed] {change : Operation → Operation}
    (h : updateLifecycleClaim s id allowed change = .ok s') (keeps : ∀ row, (change row).id = row.id)
    (opens : ∀ op, allowed op → op.Open)
    (touched : ∀ op, allowed op → Touched op { op with toOperation := change op.toOperation }) :
    Touch s s' := by
  unfold updateLifecycleClaim at h
  obtain ⟨op, found, h⟩ := bind_ok.mp h
  obtain ⟨_, checked, h⟩ := bind_ok.mp h
  rw [← pure_ok.mp h]
  have allowed := ensure_ok.mp checked
  exact ⟨rows_update rfl (okOr_ok.mp found) (opens op allowed) (fun row => keeps row.toOperation)
    (touched op allowed), .refl, sameAllocation_refl, rfl, fun _ => le_rfl⟩

theorem claimLifecycle_touch {id : OperationId} {lease : ℤ}
    (h : claimLifecycle s id lease now = .ok s') : Touch s s' := by
  refine updateLifecycleClaim_touch h (fun _ => rfl) ?_ ?_
  · intro op claimable
    exact ⟨claimable.1.1, fun parked => claimable.2 parked.1⟩
  · intro op claimable
    have raised : op.claimRevision < (op.claimNext lease now).claimRevision := Int.lt_succ _
    refine ⟨rfl, rfl, rfl, rfl, rfl, le_rfl, raised.le, fun _ => .inr raised, ?_⟩
    show ¬(if op.status = .queued then Status.running else op.status).Terminal
    split
    · decide
    · exact claimable.1.1

theorem renewLifecycle_touch {lease : ℤ} (h : renewLifecycle s claim lease now = .ok s') :
    Touch s s' := by
  refine updateLifecycleClaim_touch h (fun _ => rfl) (fun _ => open_of_fenced) ?_
  intro op fenced
  exact ⟨rfl, rfl, rfl, rfl, rfl, le_rfl, le_rfl, fun _ => .inl (lease_of_fenced fenced),
    (open_of_fenced fenced).1⟩

theorem deferLifecycle_touch {delay : ℤ} (h : deferLifecycle s claim delay now = .ok s') :
    Touch s s' := by
  refine updateLifecycleClaim_touch h (fun _ => rfl) (fun _ => open_of_fenced) ?_
  intro op fenced
  exact ⟨rfl, rfl, rfl, rfl, rfl, le_rfl, le_rfl, fun held => absurd rfl held,
    (open_of_fenced fenced).1⟩

/-- A change under the fence that keeps the claim and at most counts an attempt. -/
theorem Touched.of_fenced {op' : LifecycleOperation} (fenced : op.Fenced claim now)
    (id : op'.id = op.id) (projectId : op'.projectId = op.projectId)
    (sandboxId : op'.sandboxId = op.sandboxId) (kind : op'.kind = op.kind)
    (supersedes : op'.supersedesOperationId = op.supersedesOperationId)
    (attempts : op.attemptCount ≤ op'.attemptCount) (revision : op'.claimRevision = op.claimRevision)
    (live : op'.status = op.status ∨ op'.status = .unknown) : Touched op op' := by
  refine ⟨id, projectId, sandboxId, kind, supersedes, attempts, revision.ge,
    fun _ => .inl (lease_of_fenced fenced), ?_⟩
  rcases live with same | unknown
  · rw [same]
    exact (open_of_fenced fenced).1
  · rw [unknown]
    decide

theorem Touched.unknown {phase : LifecyclePhase} {delay : ℤ} (fenced : op.Fenced claim now) :
    Touched op (op.unknown phase delay now) :=
  .of_fenced fenced rfl rfl rfl rfl rfl le_rfl rfl (.inr rfl)

theorem prepareCreateDispatch_touch {checks : DispatchChecks} {action : CreateAction}
    (h : prepareCreateDispatch s claim checks now = .ok (s', action)) : Touch s s' := by
  unfold prepareCreateDispatch at h
  obtain ⟨ctx, found, h⟩ := bind_ok.mp h
  have holds := contextAtEpoch_ok found
  split at h
  · cases pure_ok.mp h
    exact ⟨rows_update rfl holds.found (open_of_fenced holds.fenced) (fun _ => rfl)
      (.of_fenced holds.fenced rfl rfl rfl rfl rfl le_rfl rfl (.inl rfl)), .refl,
      sameAllocation_refl, rfl, fun _ => le_rfl⟩
  · iterate 6 obtain ⟨_, _, h⟩ := bind_ok.mp h
    cases pure_ok.mp h
    have counted : ctx.op.attemptCount ≤ ctx.op.attemptCount + 1 := by omega
    refine ⟨rows_update rfl holds.found (open_of_fenced holds.fenced) (fun _ => rfl)
      (.of_fenced holds.fenced rfl rfl rfl rfl rfl counted rfl (.inl rfl)), .refl, ?_, rfl,
      fun _ => le_rfl⟩
    rw [holds.allocation]
    exact .some ⟨rfl, rfl, rfl, Iff.rfl⟩

theorem recordCreateUnknown_touch (h : recordCreateUnknown s claim now = .ok s') : Touch s s' := by
  unfold recordCreateUnknown at h
  obtain ⟨ctx, found, h⟩ := bind_ok.mp h
  have holds := contextAtEpoch_ok found
  rw [← pure_ok.mp h]
  exact ⟨rows_update rfl holds.found (open_of_fenced holds.fenced) (fun _ => rfl) (.unknown holds.fenced),
    .uncertain, sameAllocation_refl, rfl, fun _ => le_rfl⟩

theorem recordDestroyUnknown_touch (h : recordDestroyUnknown s claim now = .ok s') : Touch s s' := by
  unfold recordDestroyUnknown at h
  obtain ⟨ctx, found, h⟩ := bind_ok.mp h
  have holds := contextAtEpoch_ok found
  rw [← pure_ok.mp h]
  exact ⟨rows_update rfl holds.found (open_of_fenced holds.fenced) (fun _ => rfl) (.unknown holds.fenced),
    .uncertain, sameAllocation_refl, rfl, fun _ => le_rfl⟩

/-- An unreleased allocation whose columns apart from its release change. -/
theorem SameAllocation.of_unreleased {a' : AllocationRow}
    (inv : LifecycleAllocationInv strict allowSimulated c s a) (unreleased : a.releasedAt = none)
    (identity : a'.toAllocation = a.toAllocation) (releasedAt : a'.releasedAt = a.releasedAt)
    (evidence : a'.releaseEvidence = a.releaseEvidence) (status : a'.status ≠ .released) :
    SameAllocation a a' := by
  have free : a.status ≠ .released := fun gone => inv.status.mp gone unreleased
  exact ⟨identity, releasedAt, evidence, iff_of_false status free⟩

theorem prepareDestroy_touch {retryStop : Bool} {action : DestroyAction}
    (inv : LifecycleInv strict allowSimulated c s)
    (h : prepareDestroy s claim retryStop now = .ok (s', action)) : Touch s s' := by
  unfold prepareDestroy at h
  obtain ⟨ctx, found, h⟩ := bind_ok.mp h
  have holds := contextAtEpoch_ok found
  obtain ⟨_, _, h⟩ := bind_ok.mp h
  obtain ⟨_, _, h⟩ := bind_ok.mp h
  cases pure_ok.mp h
  generalize (decide (ctx.op.attemptCount = 0) || retryStop) = stop
  have counted : ctx.op.attemptCount ≤ (ctx.op.dispatchStop ctx.owner stop).attemptCount := by
    show ctx.op.attemptCount ≤ ctx.op.attemptCount + _
    split <;> omega
  refine ⟨rows_update rfl holds.found (open_of_fenced holds.fenced) (fun _ => rfl)
    (.of_fenced holds.fenced rfl rfl rfl rfl rfl counted rfl (.inl rfl)), .refl, ?_, rfl,
    fun _ => le_rfl⟩
  rw [holds.allocation]
  refine .some ?_
  split
  · exact .of_unreleased (inv.allocation _ holds.allocation) holds.unreleased rfl rfl rfl
      (fun gone => by cases gone)
  · exact .refl

theorem preparePreviousAllocation_touch {host : HostId} {reportingEpoch : ℤ}
    {action : Option PreviousAction}
    (h : preparePreviousAllocation s claim host reportingEpoch now = .ok (s', action)) :
    Touch s s' := by
  have unchanged : Touch s s := ⟨rows_refl rfl, .refl, sameAllocation_refl, rfl, fun _ => le_rfl⟩
  unfold preparePreviousAllocation at h
  obtain ⟨_, _, h⟩ := bind_ok.mp h
  split at h
  · cases pure_ok.mp h
    exact unchanged
  · obtain ⟨_, _, h⟩ := bind_ok.mp h
    obtain ⟨ctx, found, h⟩ := bind_ok.mp h
    have holds := contextAtEpoch_ok found
    obtain ⟨_, _, h⟩ := bind_ok.mp h
    split at h
    · cases pure_ok.mp h
      exact unchanged
    · unfold reconcilePrevious at h
      obtain ⟨_, _, h⟩ := bind_ok.mp h
      cases pure_ok.mp h
      exact ⟨rows_update rfl holds.found (open_of_fenced holds.fenced) (fun _ => rfl)
        (.of_fenced holds.fenced rfl rfl rfl rfl rfl le_rfl rfl (.inl rfl)), .refl,
        sameAllocation_refl, rfl, fun _ => le_rfl⟩

theorem previousContext_ok {request : PreviousAllocationRequest} {ctx : Context}
    (h : previousContext s claim request now = .ok ctx) :
    Holds s claim ctx.op.kind (some request.reportingEpoch) now ctx ∧
      (ctx.op.kind = .create ∨ ctx.op.kind = .destroy) := by
  unfold previousContext at h
  obtain ⟨op, _, h⟩ := bind_ok.mp h
  obtain ⟨_, known, h⟩ := bind_ok.mp h
  have holds := contextAtEpoch_ok h
  rw [holds.kind]
  exact ⟨holds, ensure_ok.mp known⟩

theorem recordPreviousUnknown_touch {request : PreviousAllocationRequest}
    (h : recordPreviousUnknown s claim request now = .ok s') : Touch s s' := by
  unfold recordPreviousUnknown at h
  obtain ⟨ctx, found, h⟩ := bind_ok.mp h
  obtain ⟨holds, _⟩ := previousContext_ok found
  obtain ⟨_, _, h⟩ := bind_ok.mp h
  rw [← pure_ok.mp h]
  exact ⟨rows_update rfl holds.found (open_of_fenced holds.fenced) (fun _ => rfl) (.unknown holds.fenced),
    .uncertain, sameAllocation_refl, rfl, fun _ => le_rfl⟩

/-! ### Lease maintenance -/

theorem leaseContext_ok {claim : AllocationClaim} {ctx : LeaseContext}
    (h : leaseContext s claim now = .ok ctx) :
    s.allocation = some ctx.allocation ∧ ctx.allocation.status = .running ∧
      ctx.allocation.releasedAt = none ∧
      s.sandbox.currentAllocationId = some claim.allocationId ∧
      s.sandbox.activeTransitionOperationId = none := by
  unfold leaseContext at h
  obtain ⟨a, held, h⟩ := bind_ok.mp h
  obtain ⟨_, maintained, h⟩ := bind_ok.mp h
  obtain ⟨_, owned, h⟩ := bind_ok.mp h
  have maintained := ensure_ok.mp maintained
  have owned := ensure_ok.mp owned
  rw [← pure_ok.mp h]
  exact ⟨okOr_ok.mp held, maintained.2.2.2.1, maintained.2.2.2.2, owned.2.2.1, owned.2.2.2.1⟩

/-- Only columns that the lease's maintenance owns change. -/
theorem Touch.maintained {a' : AllocationRow} (held : s.allocation = some a)
    (allocation : s'.allocation = some a') (same : SameAllocation a a')
    (sandbox : SameSandbox s.sandbox s'.sandbox) (rows : s'.operations = s.operations)
    (permit : s'.permit = s.permit) (epochs : s'.hostEpoch = s.hostEpoch) : Touch s s' := by
  refine ⟨rows_refl rows, sandbox, ?_, permit, fun host => le_of_eq (by rw [epochs])⟩
  rw [held, allocation]
  exact .some same

theorem claimAllocation_touch {host : HostId} {epoch lease : ℤ}
    (h : claimAllocation s host epoch lease now = .ok s') : Touch s s' := by
  unfold claimAllocation at h
  obtain ⟨_, _, h⟩ := bind_ok.mp h
  obtain ⟨a, held, h⟩ := bind_ok.mp h
  obtain ⟨_, _, h⟩ := bind_ok.mp h
  rw [← pure_ok.mp h]
  exact .maintained (okOr_ok.mp held) rfl ⟨rfl, rfl, rfl, Iff.rfl⟩ .refl rfl rfl rfl

theorem deferAllocation_touch {claim : AllocationClaim}
    (h : deferAllocation s claim now = .ok s') : Touch s s' := by
  unfold deferAllocation at h
  obtain ⟨a, held, h⟩ := bind_ok.mp h
  obtain ⟨_, _, h⟩ := bind_ok.mp h
  rw [← pure_ok.mp h]
  exact .maintained (okOr_ok.mp held) rfl ⟨rfl, rfl, rfl, Iff.rfl⟩ .refl rfl rfl rfl

theorem recordLeaseUnknown_touch {claim : AllocationClaim}
    (h : recordLeaseUnknown s claim now = .ok s') : Touch s s' := by
  unfold recordLeaseUnknown at h
  obtain ⟨ctx, found, h⟩ := bind_ok.mp h
  rw [← pure_ok.mp h]
  exact .maintained (leaseContext_ok found).1 rfl ⟨rfl, rfl, rfl, Iff.rfl⟩ .uncertain rfl rfl rfl

theorem markHostRuntimeUnknown_touch {host : HostId} {epoch : ℤ}
    (h : markHostRuntimeUnknown s host epoch = .ok s') : Touch s s' := by
  unfold markHostRuntimeUnknown at h
  obtain ⟨a, _, h⟩ := bind_ok.mp h
  obtain ⟨_, _, h⟩ := bind_ok.mp h
  rw [← pure_ok.mp h]
  exact ⟨rows_refl rfl, .uncertain, sameAllocation_refl, rfl, fun _ => le_rfl⟩

theorem markPreviousEpochUnknown_touch {host : HostId} {epoch : ℤ}
    (h : markPreviousEpochUnknown s host epoch = .ok s') : Touch s s' := by
  unfold markPreviousEpochUnknown at h
  obtain ⟨a, _, h⟩ := bind_ok.mp h
  obtain ⟨_, _, h⟩ := bind_ok.mp h
  rw [← pure_ok.mp h]
  exact ⟨rows_refl rfl, .uncertain, sameAllocation_refl, rfl, fun _ => le_rfl⟩

theorem registerHost_touch {host : HostId} {epoch : ℤ}
    (h : registerHost s host epoch = .ok s') : Touch s s' := by
  unfold registerHost at h
  obtain ⟨_, later, h⟩ := bind_ok.mp h
  have later := ensure_ok.mp later
  rw [← pure_ok.mp h]
  refine ⟨rows_refl rfl, .refl, sameAllocation_refl, rfl, fun other => ?_⟩
  show s.hostEpoch other ≤ if other = host then epoch else s.hostEpoch other
  split
  next same => exact same ▸ later.le
  · exact le_rfl

/-! ### Admission of a destroy -/

theorem op_insert {row : LifecycleOperation} {id : OperationId} (fresh : s.op row.id = none)
    (rows : s'.operations = s.operations ++ [row]) :
    s'.op id = if row.id = id then some row else s.op id := by
  unfold Lifecycle.op at fresh ⊢
  rw [rows]
  exact Table.find_insert fresh

theorem LifecycleInv.insert {row : LifecycleOperation} (inv : LifecycleInv strict allowSimulated c s)
    (fresh : s.op row.id = none) (rowInv : LifecycleRowInv s.sandbox c row) :
    LifecycleInv strict allowSimulated c { s with operations := s.operations ++ [row] } := by
  have kept : ∀ id op, s.op id = some op →
      Lifecycle.op { s with operations := s.operations ++ [row] } id = some op := by
    intro id op found
    rw [op_insert fresh rfl, if_neg, found]
    rintro rfl
    rw [found] at fresh
    cases fresh
  have frame : Persists s { s with operations := s.operations ++ [row] } :=
    ⟨fun id op found _ => ⟨op.supersedesOperationId, kept id op found⟩, fun _ => le_rfl, rfl, rfl⟩
  refine ⟨?_, ?_, fun idle => frame.createFinished (inv.idle idle), ?_, inv.destroyed, inv.current,
    inv.placed, fun a held => frame.allocation rfl .refl (inv.allocation a held)⟩
  · intro id op found
    rw [op_insert fresh rfl] at found
    split at found
    · cases found
      exact rowInv
    · exact inv.rows id op found
  · obtain ⟨op, found⟩ := inv.create
    exact ⟨op, kept c op found⟩
  · intro id owner other
    obtain ⟨d, found, destroy, owed⟩ := inv.active id owner other
    refine ⟨d, kept id d found, destroy, ?_⟩
    rcases owed with ⟨free, finished⟩ | ⟨owes, op, found, parked⟩
    · exact .inl ⟨free, frame.createFinished finished⟩
    · exact .inr ⟨owes, op, kept c op found, parked⟩

/-- The sandbox's transition changes hands. -/
theorem LifecycleInv.transfer {row : SandboxRow} (inv : LifecycleInv strict allowSimulated c s)
    (id : row.id = s.sandbox.id) (projectId : row.projectId = s.sandbox.projectId)
    (generation : row.generation = s.sandbox.generation)
    (current : row.currentAllocationId = s.sandbox.currentAllocationId)
    (idle : row.activeTransitionOperationId = none → s.CreateFinished c)
    (active : ∀ id, row.activeTransitionOperationId = some id → id ≠ c →
      ∃ d, s.op id = some d ∧ s.Owns c d)
    (destroyed : row.observedState = .destroyed → row.activeTransitionOperationId = none) :
    LifecycleInv strict allowSimulated c { s with sandbox := row } := by
  have frame : Persists s { s with sandbox := row } :=
    ⟨fun _ op found _ => ⟨op.supersedesOperationId, found⟩, fun _ => le_rfl, projectId, id⟩
  exact ⟨fun other op found => (inv.rows other op found).congr projectId id, inv.create, idle, active,
    destroyed, fun other pointer => inv.current other (current ▸ pointer),
    fun zero => inv.placed (generation ▸ zero),
    fun a held => frame.allocation rfl .refl (inv.allocation a held)⟩

theorem destroyRow_inv {id : OperationId} {supersedes : Option OperationId} {immediate : Bool}
    (other : id ≠ c) : LifecycleRowInv s.sandbox c (destroyRow s.sandbox id supersedes immediate now) := by
  refine ⟨rfl, rfl, .inr ⟨rfl, other⟩, le_rfl, le_rfl, fun held => absurd rfl held, ?_⟩
  cases immediate with
  | false =>
    intro terminal
    exact absurd terminal (by decide : ¬Status.queued.Terminal)
  | true => exact fun terminal => ⟨terminal, Option.some_ne_none now, rfl, rfl⟩

/-- The service's own destroy finds no transition to supersede. -/
theorem LifecycleInv.cleanup {id : OperationId} (inv : LifecycleInv strict allowSimulated c s)
    (fresh : s.op id = none) (idle : s.sandbox.activeTransitionOperationId = none) :
    LifecycleInv strict allowSimulated c (s.cleanup id now) := by
  have other : id ≠ c := by
    rintro rfl
    obtain ⟨op, found⟩ := inv.create
    rw [found] at fresh
    cases fresh
  have row : LifecycleRowInv s.sandbox c (destroyRow s.sandbox id none false now) := destroyRow_inv other
  have inserted := inv.insert fresh row
  refine inserted.transfer rfl rfl rfl rfl (fun gone => by cases gone) ?_ (fun gone => by cases gone)
  intro owner same _
  cases same
  refine ⟨destroyRow s.sandbox id none false now, ?_, rfl, .inl ⟨rfl, inserted.idle idle⟩⟩
  rw [op_insert fresh rfl]
  exact if_pos rfl

end Invariant
end HudsonSandbox.Store
