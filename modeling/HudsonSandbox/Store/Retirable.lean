import HudsonSandbox.Store.LifecycleInv

/-!
# A released allocation stays retirable

The transactions that place, destroy and release an allocation keep the invariant of the
lifecycle rows, so every run does, and retirement accepts what a release recorded.
-/

namespace HudsonSandbox.Store
open Checked LiveOutput Supervisor AllocationAuthority Run

section Steps
variable {strict : Prop} {allowSimulated : Bool} {c : OperationId} {s s' : Lifecycle}
  {op : LifecycleOperation} {a : AllocationRow} {claim : Claim} {kind : Kind} {now : Time}

/-! ### Lease maintenance that ends in a cleanup -/

theorem cleanup_ok {id : OperationId} (h : cleanup s id now = .ok s') :
    s.op id = none ∧ s' = s.cleanup id now := by
  unfold cleanup at h
  obtain ⟨_, fresh, h⟩ := bind_ok.mp h
  exact ⟨ensure_ok.mp fresh, (pure_ok.mp h).symm⟩

/-- The maintenance columns may change in the same transaction. -/
theorem LifecycleInv.maintained {a' : AllocationRow} (inv : LifecycleInv strict allowSimulated c s)
    (held : s.allocation = some a) (same : SameAllocation a a') :
    LifecycleInv strict allowSimulated c { s with allocation := some a' } :=
  inv.touch (.maintained held rfl same .refl rfl rfl rfl)

theorem prepareLease_inv {claim : AllocationClaim} {id : OperationId} {projectActive : Bool}
    {action : LeaseAction} (inv : LifecycleInv strict allowSimulated c s)
    (h : prepareLease s claim id projectActive now = .ok (s', action)) :
    LifecycleInv strict allowSimulated c s' := by
  unfold prepareLease at h
  obtain ⟨ctx, found, h⟩ := bind_ok.mp h
  obtain ⟨held, _, _, _, idle⟩ := leaseContext_ok found
  dsimp only at h
  split at h
  · obtain ⟨next, admitted, h⟩ := bind_ok.mp h
    obtain ⟨fresh, rfl⟩ := cleanup_ok admitted
    cases pure_ok.mp h
    exact (inv.cleanup fresh idle).maintained held ⟨rfl, rfl, rfl, Iff.rfl⟩
  · split at h
    · cases pure_ok.mp h
      exact inv
    · split at h
      · cases pure_ok.mp h
        exact inv
      · cases pure_ok.mp h
        exact inv.maintained held ⟨rfl, rfl, rfl, Iff.rfl⟩

theorem leaseReady_inv {ctx : LeaseContext} {id : OperationId} {observed : ℤ} {projectActive : Bool}
    (inv : LifecycleInv strict allowSimulated c s) (held : s.allocation = some ctx.allocation)
    (idle : s.sandbox.activeTransitionOperationId = none)
    (h : leaseReady s ctx id observed projectActive now = .ok s') :
    LifecycleInv strict allowSimulated c s' := by
  unfold leaseReady at h
  iterate 3 obtain ⟨_, _, h⟩ := bind_ok.mp h
  split at h
  · obtain ⟨fresh, rfl⟩ := cleanup_ok h
    exact inv.cleanup fresh idle
  · rw [← pure_ok.mp h]
    exact inv.touch (.maintained held rfl ⟨rfl, rfl, rfl, Iff.rfl⟩
      ⟨rfl, rfl, rfl, rfl, rfl, fun gone => by cases gone⟩ rfl rfl rfl)

theorem leaseObserved_inv {ctx : LeaseContext} {id : OperationId} {observation : LeaseObservation}
    {projectActive : Bool} (inv : LifecycleInv strict allowSimulated c s)
    (held : s.allocation = some ctx.allocation)
    (idle : s.sandbox.activeTransitionOperationId = none)
    (h : leaseObserved s ctx id observation projectActive now = .ok s') :
    LifecycleInv strict allowSimulated c s' := by
  unfold leaseObserved at h
  split at h
  · obtain ⟨fresh, rfl⟩ := cleanup_ok h
    exact inv.cleanup fresh idle
  · obtain ⟨fresh, rfl⟩ := cleanup_ok h
    exact inv.cleanup fresh idle
  · exact leaseReady_inv inv held idle h
  · cases h

theorem recordLeaseObservation_inv {claim : AllocationClaim} {id : OperationId}
    {observation : LeaseObservation} {projectActive : Bool}
    (inv : LifecycleInv strict allowSimulated c s)
    (h : recordLeaseObservation s claim id observation projectActive allowSimulated now = .ok s') :
    LifecycleInv strict allowSimulated c s' := by
  unfold recordLeaseObservation at h
  obtain ⟨_, _, h⟩ := bind_ok.mp h
  obtain ⟨ctx, found, h⟩ := bind_ok.mp h
  obtain ⟨held, _, _, _, idle⟩ := leaseContext_ok found
  obtain ⟨_, _, h⟩ := bind_ok.mp h
  obtain ⟨_, _, h⟩ := bind_ok.mp h
  obtain ⟨next, observed, h⟩ := bind_ok.mp h
  obtain ⟨_, _, h⟩ := bind_ok.mp h
  rw [← pure_ok.mp h]
  have kept := leaseObserved_inv inv held idle observed
  cases after : next.allocation with
  | none =>
    refine kept.touch ⟨rows_refl rfl, .refl, ?_, rfl, fun _ => le_rfl⟩
    rw [after]
    exact .none
  | some a => exact kept.touch (.maintained after rfl ⟨rfl, rfl, rfl, Iff.rfl⟩ .refl rfl rfl rfl)

/-! ### Placement -/

/-- The first placement of a sandbox: nothing was placed before it, so nothing is lost. -/
theorem LifecycleInv.place {id : AllocationId} {host : HostId} {epoch : ℤ} {serial : ℕ}
    (inv : LifecycleInv strict allowSimulated c s) (found : s.op claim.operationId = some op)
    (fenced : op.Fenced claim now) (create : op.kind = .create)
    (active : s.sandbox.activeTransitionOperationId = some claim.operationId)
    (current : s.hostEpoch host = epoch) :
    LifecycleInv strict allowSimulated c (s.place op claim id host epoch serial) := by
  have rowInv := inv.rows _ op found
  have same : op.id = c := by
    rcases rowInv.kind with ⟨_, same⟩ | ⟨destroy, _⟩
    · exact same
    · rw [create] at destroy
      cases destroy
  have rows : ∀ other, Option.Rel Moves (s.op other)
      ((s.place op claim id host epoch serial).op other) :=
    rows_update rfl found (open_of_fenced fenced) (fun _ => rfl)
      (.of_fenced fenced rfl rfl rfl rfl rfl le_rfl rfl (.inl rfl))
  -- the rows move as in any fenced step; only the sandbox and its allocation are new
  have touched : LifecycleInv strict allowSimulated c
      { s with operations := (s.place op claim id host epoch serial).operations } :=
    inv.touch ⟨rows, .refl, sameAllocation_refl, rfl, fun _ => le_rfl⟩
  have pending : s.sandbox.observedState ≠ .destroyed := by
    intro gone
    rw [inv.destroyed gone] at active
    cases active
  refine ⟨?_, touched.create, touched.idle, touched.active, fun gone => absurd gone pending, ?_,
    fun zero => (by cases zero), ?_⟩
  · intro other row stored
    have kept : LifecycleRowInv s.sandbox c row := touched.rows other row stored
    exact kept.congr rfl rfl
  · intro other pointer
    cases pointer
    exact ⟨placedAllocation op id host epoch, rfl, rfl, rfl⟩
  · intro placed held
    cases held
    refine ⟨⟨placedPermit op id host epoch serial, rfl, ⟨rfl, rowInv.projectId, rowInv.sandboxId, rfl,
        same, rfl, rfl⟩⟩, current.ge, ?_, fun gone => absurd rfl gone⟩
    exact iff_of_false (fun gone => by cases gone) (fun gone => gone rfl)

theorem reserveCreate_inv {id : AllocationId} {host : HostId} {expectedEpoch : ℤ}
    {checks : PlacementChecks} (inv : LifecycleInv strict allowSimulated c s)
    (h : reserveCreate s claim id host expectedEpoch checks now = .ok s') :
    LifecycleInv strict allowSimulated c s' := by
  unfold reserveCreate at h
  obtain ⟨op, found, h⟩ := bind_ok.mp h
  obtain ⟨_, fenced, h⟩ := bind_ok.mp h
  obtain ⟨_, owned, h⟩ := bind_ok.mp h
  split at h
  · obtain ⟨_, _, h⟩ := bind_ok.mp h
    rw [← pure_ok.mp h]
    exact inv
  · iterate 3 obtain ⟨_, _, h⟩ := bind_ok.mp h
    obtain ⟨_, ready, h⟩ := bind_ok.mp h
    iterate 3 obtain ⟨_, _, h⟩ := bind_ok.mp h
    obtain ⟨serial, _, h⟩ := bind_ok.mp h
    rw [← pure_ok.mp h]
    exact inv.place (okOr_ok.mp found) (ensure_ok.mp fenced) (ensure_ok.mp owned).1
      (ensure_ok.mp owned).2 (ensure_ok.mp ready).2.1

/-! ### A destroy that supersedes the create -/

theorem Finished.supersede : (op.supersede true now).Finished :=
  ⟨.inr (.inl rfl), Option.some_ne_none now, rfl, rfl⟩

theorem LifecycleInv.supersede {immediate : Bool} (inv : LifecycleInv strict allowSimulated c s)
    (active : s.sandbox.activeTransitionOperationId = some c) (found : s.op c = some op)
    (unknown : op.status = .unknown)
    (rows : s'.operations = s.updateOperation c (·.supersede immediate now))
    (sandbox : s'.sandbox = s.sandbox) (allocation : s'.allocation = s.allocation)
    (permit : s'.permit = s.permit) (epochs : s'.hostEpoch = s.hostEpoch) :
    LifecycleInv strict allowSimulated c s' ∧ s'.op c = some (op.supersede immediate now) := by
  have own : s'.op c = some (op.supersede immediate now) := by
    rw [op_update rows (fun _ => rfl), found]
    rfl
  have others : ∀ id, id ≠ c → s'.op id = s.op id := fun _ => op_update_of_ne rows (fun _ => rfl)
  have frame : Persists s s' := by
    refine ⟨fun id row held finished => ⟨row.supersedesOperationId, ?_⟩,
      fun host => le_of_eq (by rw [epochs]), by rw [sandbox], by rw [sandbox]⟩
    by_cases same : id = c
    · subst same
      rw [found] at held
      cases held
      exact absurd finished (not_finished_of_live (.inr unknown))
    · exact (others id same).trans held
  have idle : s.sandbox.activeTransitionOperationId ≠ none := by
    rw [active]
    exact Option.some_ne_none c
  refine ⟨⟨?_, ⟨_, own⟩, ?_, ?_, ?_, ?_, ?_, ?_⟩, own⟩
  · intro id row held
    rw [sandbox]
    by_cases same : id = c
    · subst same
      rw [own] at held
      cases held
      have before := inv.rows id op found
      have revision : 0 ≤ op.claimRevision + 1 := by
        have := before.revision
        omega
      refine ⟨before.projectId, before.sandboxId, before.kind, before.attempts, revision,
        fun held => absurd rfl held, ?_⟩
      cases immediate with
      | false =>
        intro terminal
        exact absurd terminal (by decide : ¬Status.unknown.Terminal)
      | true => exact fun _ => Finished.supersede
    · exact inv.rows id row ((others id same).symm.trans held)
  · rw [sandbox]
    exact fun gone => absurd gone idle
  · rw [sandbox, active]
    rintro _ ⟨⟩ other
    exact absurd rfl other
  · rw [sandbox]
    exact inv.destroyed
  · rw [sandbox, allocation]
    exact inv.current
  · rw [sandbox, allocation]
    exact inv.placed
  · rw [allocation]
    exact fun a held => frame.allocation permit .refl (inv.allocation a held)

/-- The create that the active transition points at, if a destroy may take it over. -/
theorem LifecycleInv.superseded (inv : LifecycleInv strict allowSimulated c s) {active : OperationId}
    (pointer : s.sandbox.activeTransitionOperationId = some active)
    (free : ¬∃ op ∈ s.previous, op.kind ≠ .create ∨ op.status ≠ .unknown) :
    active = c ∧ ∃ op, s.op c = some op ∧ op.status = .unknown := by
  have reads : s.previous = s.op active := by
    unfold Lifecycle.previous
    rw [pointer]
    rfl
  have create : active = c := by
    by_contra other
    obtain ⟨d, found, destroy, _⟩ := inv.active active pointer other
    refine free ⟨d, reads.trans found, .inl ?_⟩
    rw [destroy]
    decide
  subst create
  obtain ⟨op, found⟩ := inv.create
  refine ⟨rfl, op, found, ?_⟩
  by_contra known
  exact free ⟨op, reads.trans found, .inr known⟩

/-- The rest of an admission that supersedes the create: the destroy's own row, and the sandbox,
which an immediate destroy leaves without a transition. -/
theorem LifecycleInv.takeOver {id : OperationId} {immediate : Bool}
    (inv : LifecycleInv strict allowSimulated c s)
    (active : s.sandbox.activeTransitionOperationId = some c) (found : s.op c = some op)
    (unknown : op.status = .unknown) (fresh : s.op id = none) (other : id ≠ c) :
    LifecycleInv strict allowSimulated c
      { s with
        operations := s.updateOperation c (·.supersede immediate now) ++
          [destroyRow s.sandbox id (some c) immediate now]
        sandbox :=
          { s.sandbox with
            desiredState := .destroyed
            observedState := if immediate then .destroyed else .destroying
            activeTransitionOperationId := if immediate then none else some id } } := by
  let row := destroyRow s.sandbox id (some c) immediate now
  have rows : ({ s with operations := s.updateOperation c (·.supersede immediate now) } :
      Lifecycle).operations = s.updateOperation c (·.supersede immediate now) := rfl
  obtain ⟨taken, own⟩ := inv.supersede active found unknown rows rfl rfl rfl rfl
  have free : Lifecycle.op
      { s with operations := s.updateOperation c (·.supersede immediate now) } row.id = none :=
    (op_update_of_ne rows (fun _ => rfl) other).trans fresh
  have rowInv : LifecycleRowInv s.sandbox c row := destroyRow_inv other
  have inserted := taken.insert free rowInv
  have kept : Lifecycle.op
      { s with operations := s.updateOperation c (·.supersede immediate now) ++ [row] } c =
        some (op.supersede immediate now) := by
    rw [op_insert free rfl]
    exact (if_neg other).trans own
  cases immediate with
  | true =>
    exact inserted.transfer rfl rfl rfl rfl (fun _ => ⟨_, kept, Finished.supersede⟩)
      (fun _ gone => by cases gone) (fun _ => rfl)
  | false =>
    refine inserted.transfer rfl rfl rfl rfl (fun gone => by cases gone) ?_ (fun gone => by cases gone)
    intro owner same _
    cases same
    refine ⟨row, ?_, rfl, .inr ⟨rfl, _, kept, rfl, rfl, rfl, rfl⟩⟩
    rw [op_insert free rfl]
    exact if_pos rfl

theorem admitDestroy_inv {id : OperationId} {authorized : Bool} {admission : DestroyAdmission}
    (inv : LifecycleInv strict allowSimulated c s)
    (h : admitDestroy s id authorized now = .ok (s', admission)) :
    LifecycleInv strict allowSimulated c s' := by
  unfold admitDestroy at h
  split at h
  · cases h
    exact inv
  next free =>
    split at h
    · cases h
      exact inv
    · obtain ⟨_, eligible, h⟩ := bind_ok.mp h
      obtain ⟨_, fresh, h⟩ := bind_ok.mp h
      cases pure_ok.mp h
      have fresh := ensure_ok.mp fresh
      have eligible := ensure_ok.mp eligible
      have other : id ≠ c := by
        rintro rfl
        obtain ⟨op, found⟩ := inv.create
        rw [found] at fresh
        cases fresh
      unfold Lifecycle.admitted
      dsimp only
      generalize immediately : decide (s.NoOp ∨ s.NeverAllocated) = immediate
      cases pointer : s.sandbox.activeTransitionOperationId with
      | none =>
        have row : LifecycleRowInv s.sandbox c (destroyRow s.sandbox id none immediate now) :=
          destroyRow_inv other
        have inserted := inv.insert fresh row
        have rows : s.supersedeActive immediate now = s.operations := by
          unfold Lifecycle.supersedeActive
          rw [pointer]
        rw [rows]
        by_cases noOp : s.NoOp
        · rw [if_pos noOp]
          exact inserted
        · rw [if_neg noOp]
          have queued : immediate = false := by
            rw [← immediately]
            refine decide_eq_false fun reason => ?_
            rcases reason with done | ⟨_, _, op, found, _⟩
            · exact noOp done
            · unfold Lifecycle.previous at found
              rw [pointer] at found
              cases found
          subst queued
          refine inserted.transfer rfl rfl rfl rfl (fun gone => by cases gone) ?_
            (fun gone => by cases gone)
          intro owner same _
          cases same
          refine ⟨destroyRow s.sandbox id none false now, ?_, rfl, .inl ⟨rfl, inserted.idle pointer⟩⟩
          rw [op_insert fresh rfl]
          exact if_pos rfl
      | some active =>
        obtain ⟨rfl, op, found, unknown⟩ := inv.superseded pointer free
        have noOp : ¬s.NoOp := by
          intro done
          rw [inv.destroyed done.1] at pointer
          cases pointer
        rw [if_neg noOp]
        have rows : s.supersedeActive immediate now =
            s.updateOperation active (·.supersede immediate now) := by
          unfold Lifecycle.supersedeActive
          rw [pointer]
        rw [rows]
        exact inv.takeOver pointer found unknown fresh other

/-! ### Compaction -/

theorem compactLifecycle_inv {id : OperationId} (inv : LifecycleInv strict allowSimulated c s)
    (h : compactLifecycle s id = .ok s') : LifecycleInv strict allowSimulated c s' := by
  unfold compactLifecycle at h
  obtain ⟨op, stored, h⟩ := bind_ok.mp h
  obtain ⟨_, done, h⟩ := bind_ok.mp h
  have found := okOr_ok.mp stored
  obtain ⟨terminal, completed, lease, retry, inactive⟩ := ensure_ok.mp done
  have shape := pure_ok.mp h
  have rows : s'.operations =
      s.updateOperation id fun row => { row with supersedesOperationId := none } := by rw [← shape]
  have own : s'.op id = some { op with supersedesOperationId := none } := by
    rw [op_update rows (fun _ => rfl), found]
    rfl
  have others : ∀ other, other ≠ id → s'.op other = s.op other :=
    fun _ => op_update_of_ne rows (fun _ => rfl)
  -- an erased payload changes nothing that a finished row is read for
  have reads : ∀ other row, s.op other = some row →
      ∃ supersedes, s'.op other = some { row with supersedesOperationId := supersedes } := by
    intro other row held
    by_cases same : other = id
    · subst same
      rw [found] at held
      cases held
      exact ⟨none, own⟩
    · exact ⟨row.supersedesOperationId, (others other same).trans held⟩
  have frame : Persists s s' := by
    refine ⟨fun other row held _ => reads other row held, fun _ => le_of_eq ?_, ?_, ?_⟩ <;> rw [← shape]
  rw [← shape] at frame ⊢
  refine ⟨?_, ?_, fun idle => frame.createFinished (inv.idle idle), ?_, inv.destroyed, inv.current,
    inv.placed, fun a held => frame.allocation rfl .refl (inv.allocation a held)⟩
  · intro other row held
    rw [shape] at held
    by_cases same : other = id
    · subst same
      rw [own] at held
      cases held
      have before := inv.rows other op found
      exact ⟨before.projectId, before.sandboxId, before.kind, before.attempts, before.revision,
        before.claimed, before.finished⟩
    · exact inv.rows other row ((others other same).symm.trans held)
  · obtain ⟨create, held⟩ := inv.create
    obtain ⟨supersedes, kept⟩ := reads c create held
    rw [shape]
    exact ⟨_, kept⟩
  · intro owner active other
    have different : owner ≠ id := by
      rintro rfl
      exact inactive active
    obtain ⟨d, held, destroy, owed⟩ := inv.active owner active other
    rw [shape]
    refine ⟨d, (others owner different).trans held, destroy, ?_⟩
    rcases owed with ⟨free, finished⟩ | ⟨owes, create, held, parked⟩
    · exact .inl ⟨free, shape ▸ frame.createFinished finished⟩
    · refine .inr ⟨owes, create, ?_, parked⟩
      have unfinished : c ≠ id := by
        rintro rfl
        rw [found] at held
        cases held
        rw [parked.2.1] at terminal
        exact absurd terminal (by decide)
      exact (others c unfinished).trans held

/-! ### Releases -/

theorem Finished.complete {status : Status} {phase : LifecyclePhase} {entry : LifecycleEvidence}
    (terminal : status.Terminal) : (op.complete status phase entry now).Finished :=
  ⟨terminal, Option.some_ne_none now, rfl, rfl⟩

theorem LifecycleRowInv.complete {sandbox : SandboxRow} {status : Status} {phase : LifecyclePhase}
    {entry : LifecycleEvidence} (inv : LifecycleRowInv sandbox c op) (terminal : status.Terminal) :
    LifecycleRowInv sandbox c (op.complete status phase entry now) :=
  ⟨inv.projectId, inv.sandboxId, inv.kind, inv.attempts, inv.revision, fun held => absurd rfl held,
    fun _ => Finished.complete terminal⟩

/-- After a release the sandbox has no transition and no allocation left, so what remains to be
shown is about the rows and the release itself. -/
theorem LifecycleInv.release (inv : LifecycleInv strict allowSimulated c s)
    (sandbox : s'.sandbox = s.sandbox.destroy)
    (rows : ∀ id op, s'.op id = some op → LifecycleRowInv s.sandbox c op)
    (create : s'.CreateFinished c)
    (placed : s.allocation = none → s'.allocation = none)
    (allocation : ∀ a, s'.allocation = some a → LifecycleAllocationInv strict allowSimulated c s' a) :
    LifecycleInv strict allowSimulated c s' := by
  refine ⟨fun id op found => (rows id op found).congr (by rw [sandbox]; rfl) (by rw [sandbox]; rfl),
    ?_, fun _ => create, ?_, ?_, ?_, ?_, allocation⟩
  · obtain ⟨op, found, _⟩ := create
    exact ⟨op, found⟩
  · rw [sandbox]
    exact fun _ gone => by cases gone
  · rw [sandbox]
    exact fun _ => rfl
  · rw [sandbox]
    exact fun _ gone => by cases gone
  · rw [sandbox]
    exact fun zero => placed (inv.placed zero)

/-- What a confirmed release writes about its allocation is what retirement will ask about it. -/
theorem Confirmed.of_owner {reportingEpoch : Option ℤ} {ctx : Context} {row : LifecycleOperation}
    {a : AllocationRow} {sandbox : SandboxRow} {simulated : Bool} {reporting : Option ℤ}
    {recovery absent : Option Bool} {observed : ℤ} {starts : Option ℕ} {epoch : ℤ}
    (holds : Holds s claim kind reportingEpoch now ctx) (inv : LifecycleInv strict allowSimulated c s)
    (identity : a.toAllocation = ctx.allocation.toAllocation) (sandboxId : sandbox.id = s.sandbox.id)
    (projectId : sandbox.projectId = s.sandbox.projectId)
    (revision : row.claimRevision = ctx.op.claimRevision)
    (reported : ∀ v ∈ reporting, a.supervisorEpoch ≤ v ∧ v ≤ epoch) (positive : 0 < observed)
    (permitted : simulated = true → allowSimulated = true)
    (attempted : 0 < row.attemptCount ∨ row.kind = .destroy ∧ ¬strict) :
    Confirmed strict allowSimulated epoch sandbox a row
      { evidence ctx.owner (some simulated) .allocationReleased with
        reportingEpoch := reporting, previousEpochRecovery := recovery, fencedAbsent := absent,
        observedUnixMs := some observed, startCount := starts } := by
  have rowInv := inv.rows _ ctx.op holds.found
  refine ⟨rfl, ?_, ?_, ?_, ?_, ?_, ?_, reported, ?_, ⟨observed, rfl, positive⟩,
    ⟨simulated, rfl, permitted⟩, attempted⟩
  · rw [identity, holds.owner]
    rfl
  · rw [projectId, holds.owner, ← rowInv.projectId]
    rfl
  · rw [sandboxId, holds.owner, ← rowInv.sandboxId]
    rfl
  · rw [identity, holds.owner]
    rfl
  · rw [identity, holds.owner]
    rfl
  · rw [identity, holds.owner]
    rfl
  · have claimed := rowInv.claimed (lease_of_fenced holds.fenced)
    have same := holds.fenced.2.1
    refine ⟨claim.revision, ?_, by omega, by omega⟩
    rw [holds.owner]
    rfl

theorem LifecycleAllocationInv.release {a' : AllocationRow} {receipt : LifecycleEvidence}
    (inv : LifecycleAllocationInv strict allowSimulated c s a)
    (permit : s'.permit = s.permit) (sandbox : s'.sandbox = s.sandbox.destroy)
    (epochs : s'.hostEpoch = s.hostEpoch) (identity : a'.toAllocation = a.toAllocation)
    (status : a'.status = .released) (releasedAt : a'.releasedAt = some now)
    (evidence : a'.releaseEvidence = some receipt)
    (recorded : ∃ row, Recorded strict allowSimulated c s' a' row receipt) :
    LifecycleAllocationInv strict allowSimulated c s' a' := by
  obtain ⟨p, issued, permitted⟩ := inv.permit
  obtain ⟨row, recorded⟩ := recorded
  refine ⟨⟨p, permit.trans issued, ?_⟩, ?_, ?_, fun _ => ⟨row, receipt, evidence, recorded⟩⟩
  · obtain ⟨host, project, sandboxId, allocation, operation, generation, epoch⟩ := permitted
    rw [sandbox]
    refine ⟨?_, project, sandboxId, ?_, operation, ?_, ?_⟩
    · rw [host, identity]
    · rw [allocation, identity]
    · rw [generation, identity]
    · rw [epoch, identity]
  · rw [identity, epochs]
    exact inv.epoch
  · refine iff_of_true status ?_
    rw [releasedAt]
    exact Option.some_ne_none now

/-- The claim holder of the create is its only claimant, so its rows are those of `c`. -/
theorem Holds.create {reportingEpoch : Option ℤ} {ctx : Context}
    (holds : Holds s claim .create reportingEpoch now ctx)
    (inv : LifecycleInv strict allowSimulated c s) : ctx.op.id = c ∧ claim.operationId = c := by
  have same := op_id holds.found
  rcases (inv.rows _ ctx.op holds.found).kind with ⟨_, own⟩ | ⟨destroy, _⟩
  · exact ⟨own, same.symm.trans own⟩
  · rw [holds.kind] at destroy
    cases destroy

/-- A create that is completed under its fence, whichever way. -/
theorem completed_rows {status : Status} {phase : LifecyclePhase} {entry : LifecycleEvidence}
    (inv : LifecycleInv strict allowSimulated c s) (found : s.op c = some op)
    (terminal : status.Terminal)
    (rows : s'.operations = s.updateOperation c fun row => row.complete status phase entry now) :
    s'.op c = some (op.complete status phase entry now) ∧
      (∀ id row, s'.op id = some row → LifecycleRowInv s.sandbox c row) ∧
        ∀ id, id ≠ c → s'.op id = s.op id := by
  have own : s'.op c = some (op.complete status phase entry now) := by
    rw [op_update rows (fun _ => rfl), found]
    rfl
  have others : ∀ id, id ≠ c → s'.op id = s.op id := fun _ => op_update_of_ne rows (fun _ => rfl)
  refine ⟨own, ?_, others⟩
  intro id row held
  by_cases same : id = c
  · subst same
    rw [own] at held
    cases held
    exact (inv.rows id op found).complete terminal
  · exact inv.rows id row ((others id same).symm.trans held)

theorem createReady_inv {ctx : Context} {observation : Observation}
    (inv : LifecycleInv strict allowSimulated c s) (holds : Holds s claim .create none now ctx) :
    LifecycleInv strict allowSimulated c (s.createReady ctx claim observation now) := by
  obtain ⟨_, same⟩ := holds.create inv
  have found := holds.found
  rw [same] at found
  have changed : (s.createReady ctx claim observation now).operations =
      s.updateOperation c fun row =>
        row.complete .succeeded .ready (createReceipt ctx.owner observation .guestReady) now := by
    rw [← same]
    rfl
  obtain ⟨own, rows, others⟩ := completed_rows inv found (.inl rfl) changed
  have frame : Persists s (s.createReady ctx claim observation now) := by
    refine ⟨fun id row held finished => ⟨row.supersedesOperationId, ?_⟩, fun _ => le_rfl, rfl, rfl⟩
    by_cases mine : id = c
    · subst mine
      rw [found] at held
      cases held
      exact absurd finished (not_finished_of_live holds.fenced.2.2.2)
    · exact (others id mine).trans held
  have kept : SameAllocation ctx.allocation
      { ctx.allocation with
        status := .running, maintenanceNextAt := some (now + seconds 10) } :=
    .of_unreleased (inv.allocation _ holds.allocation) holds.unreleased rfl rfl rfl
      (fun gone => by cases gone)
  refine ⟨fun id row held => (rows id row held).congr rfl rfl, ⟨_, own⟩,
    fun _ => ⟨_, own, Finished.complete (.inl rfl)⟩, fun _ gone => (by cases gone),
    fun gone => (by cases gone), ?_, ?_, ?_⟩
  · intro id pointer
    have same : ctx.allocation.id = id := Option.some.inj (holds.current.symm.trans pointer)
    exact ⟨_, rfl, same, holds.unreleased⟩
  · intro zero
    have empty := inv.placed zero
    rw [holds.allocation] at empty
    cases empty
  · rintro _ ⟨⟩
    exact frame.allocation rfl kept (inv.allocation _ holds.allocation)

theorem createReleased_inv {ctx : Context} {observation : Observation}
    (inv : LifecycleInv strict allowSimulated c s) (holds : Holds s claim .create none now ctx)
    (positive : 0 < observation.observedUnixMs)
    (permitted : observation.simulated = true → allowSimulated = true)
    (attempted : ctx.op.attemptCount = 1) :
    LifecycleInv strict allowSimulated c (s.createReleased ctx claim observation now) := by
  obtain ⟨id, same⟩ := holds.create inv
  have found := holds.found
  rw [same] at found
  have changed : (s.createReleased ctx claim observation now).operations =
      s.updateOperation c fun row => row.complete .failed .releasedBeforeCompletion
        (createReceipt ctx.owner observation .allocationReleased) now := by
    rw [← same]
    rfl
  obtain ⟨own, rows, _⟩ := completed_rows inv found (.inr (.inl rfl)) changed
  have create : (s.createReleased ctx claim observation now).CreateFinished c :=
    ⟨_, own, Finished.complete (.inr (.inl rfl))⟩
  refine inv.release rfl rows create (fun empty => ?_) ?_
  · rw [holds.allocation] at empty
    cases empty
  · rintro _ ⟨⟩
    refine (inv.allocation _ holds.allocation).release rfl rfl rfl rfl rfl rfl rfl ?_
    refine ⟨_, ?_, id.symm ▸ own, Finished.complete (.inr (.inl rfl)), ?_, create, .inr ?_⟩
    · rw [show (createReceipt ctx.owner observation .allocationReleased).operationId =
        some ctx.owner.operationId from rfl, holds.owner]
      rfl
    · exact List.mem_append_right _ (List.mem_singleton_self _)
    · have counted : 0 < ctx.op.attemptCount := by omega
      exact .of_owner holds inv rfl rfl rfl rfl (fun _ none => by cases none) positive permitted
        (.inl counted)

theorem recordCreateObservation_inv {observation : Observation}
    (inv : LifecycleInv strict allowSimulated c s)
    (h : recordCreateObservation s claim observation allowSimulated now = .ok s') :
    LifecycleInv strict allowSimulated c s' := by
  unfold recordCreateObservation at h
  obtain ⟨_, permitted, h⟩ := bind_ok.mp h
  obtain ⟨ctx, found, h⟩ := bind_ok.mp h
  have holds := contextAtEpoch_ok found
  obtain ⟨_, owned, h⟩ := bind_ok.mp h
  obtain ⟨_, _, positive, attempted⟩ := ensure_ok.mp owned
  obtain ⟨_, _, h⟩ := bind_ok.mp h
  obtain ⟨state, _, h⟩ := bind_ok.mp h
  obtain ⟨_, _, h⟩ := bind_ok.mp h
  split at h
  · obtain ⟨_, _, h⟩ := bind_ok.mp h
    rw [← pure_ok.mp h]
    exact createReady_inv inv holds
  · rw [← pure_ok.mp h]
    exact createReleased_inv inv holds positive (ensure_ok.mp permitted) attempted

/-- A rejection proves that the create was never dispatched; its reservation goes with it. -/
theorem rejectUndispatchedCreate_inv {reason : CreateRejection}
    (inv : LifecycleInv strict allowSimulated c s)
    (h : rejectUndispatchedCreate s claim reason now = .ok s') :
    LifecycleInv strict allowSimulated c s' := by
  unfold rejectUndispatchedCreate at h
  obtain ⟨op, stored, h⟩ := bind_ok.mp h
  obtain ⟨_, owned, h⟩ := bind_ok.mp h
  obtain ⟨_, _, h⟩ := bind_ok.mp h
  obtain ⟨_, _, h⟩ := bind_ok.mp h
  obtain ⟨allocation, freed, h⟩ := bind_ok.mp h
  obtain ⟨fenced, _, kind, undispatched⟩ := ensure_ok.mp owned
  have found := okOr_ok.mp stored
  have same : op.id = c := by
    rcases (inv.rows _ op found).kind with ⟨_, own⟩ | ⟨destroy, _⟩
    · exact own
    · rw [kind] at destroy
      cases destroy
  have pointer : claim.operationId = c := (op_id found).symm.trans same
  rw [pointer] at found
  have shape := pure_ok.mp h
  have changed : s'.operations = s.updateOperation c fun row => row.complete .failed
      .rejectedBeforeDispatch (rejectionReceipt claim reason) now := by
    rw [← shape, ← pointer]
  obtain ⟨own, rows, others⟩ := completed_rows inv found (.inr (.inl rfl)) changed
  have create : s'.CreateFinished c := ⟨_, own, Finished.complete (.inr (.inl rfl))⟩
  have sandbox : s'.sandbox = s.sandbox.destroy := by rw [← shape]
  have permit : s'.permit = s.permit := by rw [← shape]
  have epochs : s'.hostEpoch = s.hostEpoch := by rw [← shape]
  have held : s'.allocation = allocation := by rw [← shape]
  have frame : Persists s s' := by
    refine ⟨fun id row stored finished => ⟨row.supersedesOperationId, ?_⟩,
      fun host => le_of_eq (by rw [epochs]), by rw [sandbox]; rfl, by rw [sandbox]; rfl⟩
    by_cases mine : id = c
    · subst mine
      rw [found] at stored
      cases stored
      exact absurd finished (not_finished_of_live fenced.2.2.2)
    · exact (others id mine).trans stored
  unfold rejectedAllocation at freed
  cases current : s.sandbox.currentAllocationId with
  | none =>
    rw [current] at freed
    cases freed
    refine inv.release sandbox rows create (fun empty => held.trans empty) ?_
    rw [held]
    exact fun a stored => frame.allocation permit .refl (inv.allocation a stored)
  | some id =>
    rw [current] at freed
    obtain ⟨a, unreleased, freed⟩ := bind_ok.mp freed
    obtain ⟨_, _, freed⟩ := bind_ok.mp freed
    obtain ⟨stored, _, _⟩ := unreleased_eq (okOr_ok.mp unreleased)
    cases pure_ok.mp freed
    refine inv.release sandbox rows create (fun empty => ?_) ?_
    · rw [stored] at empty
      cases empty
    · rw [held]
      rintro _ ⟨⟩
      refine (inv.allocation a stored).release permit sandbox epochs rfl rfl rfl rfl ?_
      refine ⟨_, ?_, same.symm ▸ own, Finished.complete (.inr (.inl rfl)),
        List.mem_append_right _ (List.mem_singleton_self _), create,
        .inl ⟨rfl, same, rfl, undispatched, rfl, rfl⟩⟩
      show some claim.operationId = some op.id
      rw [pointer, same]

/-! ### Releases by a destroy -/

/-- What a destroy's release leaves of the rows: its own row and the create are finished. -/
theorem destroyed_rows {reportingEpoch : Option ℤ} {ctx : Context} {receipt : LifecycleEvidence}
    (inv : LifecycleInv strict allowSimulated c s)
    (holds : Holds s claim .destroy reportingEpoch now ctx)
    (rows : s'.operations = s.destroyedRows ctx.op receipt now) :
    s'.op ctx.op.id = some (ctx.op.complete .succeeded .destroyed receipt now) ∧
      (∀ id row, s'.op id = some row → LifecycleRowInv s.sandbox c row) ∧ s'.CreateFinished c := by
  have found : s.op ctx.op.id = some ctx.op := by
    rw [op_id holds.found]
    exact holds.found
  have different : ctx.op.id ≠ c := by
    rcases (inv.rows _ ctx.op holds.found).kind with ⟨create, _⟩ | ⟨_, other⟩
    · rw [holds.kind] at create
      cases create
    · exact other
  have active : s.sandbox.activeTransitionOperationId = some ctx.op.id := by
    rw [op_id holds.found]
    exact holds.active
  obtain ⟨d, held, _, owed⟩ := inv.active ctx.op.id active different
  rw [found] at held
  cases held
  unfold Lifecycle.destroyedRows at rows
  rcases owed with ⟨free, create, stored, finished⟩ | ⟨owes, create, stored, parked⟩
  · rw [free] at rows
    have own : s'.op ctx.op.id = some (ctx.op.complete .succeeded .destroyed receipt now) := by
      rw [op_update rows (fun _ => rfl), found]
      rfl
    have others : ∀ id, id ≠ ctx.op.id → s'.op id = s.op id :=
      fun _ => op_update_of_ne rows (fun _ => rfl)
    refine ⟨own, ?_, create, (others c different.symm).trans stored, finished⟩
    intro id row held
    by_cases same : id = ctx.op.id
    · subst same
      rw [own] at held
      cases held
      exact (inv.rows _ _ found).complete (.inl rfl)
    · exact inv.rows id row ((others id same).symm.trans held)
  · rw [owes] at rows
    -- the state between the two updates of the transaction
    obtain ⟨mid, shape⟩ : ∃ mid : Lifecycle,
        mid.operations = s.updateOperation c (·.destroyedDuringCreate receipt now) :=
      ⟨{ s with operations := s.updateOperation c (·.destroyedDuringCreate receipt now) }, rfl⟩
    have last : s'.operations =
        mid.updateOperation ctx.op.id (·.complete .succeeded .destroyed receipt now) := by
      unfold Lifecycle.updateOperation
      rw [shape]
      exact rows
    have own : s'.op ctx.op.id = some (ctx.op.complete .succeeded .destroyed receipt now) := by
      rw [op_update last (fun _ => rfl), op_update_of_ne shape (fun _ => rfl) different, found]
      rfl
    have mine : s'.op c = some (create.destroyedDuringCreate receipt now) := by
      rw [op_update_of_ne last (fun _ => rfl) different.symm, op_update shape (fun _ => rfl), stored]
      rfl
    have finished : (create.destroyedDuringCreate receipt now).Finished :=
      ⟨.inr (.inl rfl), Option.some_ne_none now, parked.2.2.1, parked.2.2.2⟩
    refine ⟨own, ?_, _, mine, finished⟩
    intro id row held
    by_cases same : id = ctx.op.id
    · subst same
      rw [own] at held
      cases held
      exact (inv.rows _ _ found).complete (.inl rfl)
    · by_cases created : id = c
      · subst created
        rw [mine] at held
        cases held
        have before := inv.rows id create stored
        exact ⟨before.projectId, before.sandboxId, before.kind, before.attempts, before.revision,
          before.claimed, fun _ => finished⟩
      · rw [op_update_of_ne last (fun _ => rfl) same,
          op_update_of_ne shape (fun _ => rfl) created] at held
        exact inv.rows id row held

theorem recordDestroyObservation_inv {observation : Observation} (late : seconds 10 < now)
    (inv : LifecycleInv strict allowSimulated c s)
    (h : recordDestroyObservation s claim observation allowSimulated now = .ok s') :
    LifecycleInv strict allowSimulated c s' := by
  unfold recordDestroyObservation at h
  obtain ⟨_, permitted, h⟩ := bind_ok.mp h
  obtain ⟨ctx, found, h⟩ := bind_ok.mp h
  have holds := contextAtEpoch_ok found
  obtain ⟨_, owned, h⟩ := bind_ok.mp h
  obtain ⟨_, attempted, _⟩ := ensure_ok.mp owned
  obtain ⟨_, fresh, h⟩ := bind_ok.mp h
  have shape := pure_ok.mp h
  -- the observation itself is not checked to be positive; its freshness implies it
  have positive := (ensure_ok.mp fresh).pos late
  obtain ⟨own, rows, create⟩ := destroyed_rows inv holds
    (by rw [← shape] : s'.operations = s.destroyedRows ctx.op (destroyReceipt ctx.owner observation) now)
  have sandbox : s'.sandbox = s.sandbox.destroy := by rw [← shape]
  have held : s'.allocation = some (ctx.allocation.release (destroyReceipt ctx.owner observation) now) := by
    rw [← shape]
  refine inv.release sandbox rows create (fun empty => ?_) ?_
  · rw [holds.allocation] at empty
    cases empty
  · rw [held]
    rintro _ ⟨⟩
    refine (inv.allocation _ holds.allocation).release (by rw [← shape]) sandbox (by rw [← shape])
      rfl rfl rfl rfl ?_
    refine ⟨_, ?_, own, Finished.complete (.inl rfl),
      List.mem_append_right _ (List.mem_singleton_self _), create, .inr ?_⟩
    · show some ctx.owner.operationId = some ctx.op.id
      rw [holds.owner]
      rfl
    · have counted : 0 < ctx.op.attemptCount := by omega
      exact .of_owner holds inv rfl (by rw [sandbox]; rfl) (by rw [sandbox]; rfl) rfl
        (fun _ none => by cases none) positive (ensure_ok.mp permitted) (.inl counted)

/-- The release of an earlier epoch's allocation, written by whichever operation recovered it. -/
theorem recovered_inv {ctx : Context} {reportingEpoch : ℤ} {state : AllocationState}
    {release : Observation} (inv : LifecycleInv strict allowSimulated c s)
    (holds : Holds s claim ctx.op.kind (some reportingEpoch) now ctx)
    (known : ctx.op.kind = .create ∨ ctx.op.kind = .destroy)
    (positive : 0 < release.observedUnixMs)
    (permitted : release.simulated = true → allowSimulated = true)
    (created : ctx.op.kind = .create → CreateRecovered ctx state release)
    (stopped : strict → ctx.op.kind = .destroy → 0 < ctx.op.attemptCount) :
    LifecycleInv strict allowSimulated c
      (s.recovered ctx (previousReceipt ctx.owner reportingEpoch state release) now) := by
  obtain ⟨receipt, written⟩ :
      ∃ receipt, receipt = previousReceipt ctx.owner reportingEpoch state release := ⟨_, rfl⟩
  rw [← written]
  have entry : ∀ status phase, receipt ∈ (ctx.op.complete status phase receipt now).attemptReceipts :=
    fun _ _ => List.mem_append_right _ (List.mem_singleton_self _)
  have named : receipt.operationId = some ctx.op.id := by
    rw [written]
    show some ctx.owner.operationId = _
    rw [holds.owner]
    rfl
  -- the reporting epoch is the host's own, later than the allocation's
  obtain ⟨current, later⟩ := holds.speaks
  have confirmed : ∀ row : LifecycleOperation, row.claimRevision = ctx.op.claimRevision →
      (0 < row.attemptCount ∨ row.kind = .destroy ∧ ¬strict) →
      Confirmed strict allowSimulated (s.hostEpoch ctx.allocation.hostId) s.sandbox.destroy
        { ctx.allocation.release receipt now with maintenanceLeaseUntil := none } row receipt := by
    intro row revision attempted
    rw [written]
    refine .of_owner holds inv rfl rfl rfl revision ?_ positive permitted attempted
    rintro _ ⟨⟩
    exact ⟨later.le, current.ge⟩
  have empty : s.allocation = none → (s.recovered ctx receipt now).allocation = none := by
    intro missing
    rw [holds.allocation] at missing
    cases missing
  have allocated := inv.allocation _ holds.allocation
  rcases known with create | destroy
  · rw [create] at holds
    obtain ⟨id, same⟩ := holds.create inv
    have found := holds.found
    rw [same] at found
    have changed : (s.recovered ctx receipt now).operations = s.updateOperation c fun row =>
        row.complete .failed .releasedBeforeCompletion receipt now := by
      unfold Lifecycle.recovered
      rw [if_neg (by rw [create]; decide), id]
    obtain ⟨own, rows, _⟩ := completed_rows inv found (.inr (.inl rfl)) changed
    have finished : (s.recovered ctx receipt now).CreateFinished c :=
      ⟨_, own, Finished.complete (.inr (.inl rfl))⟩
    refine inv.release rfl rows finished empty ?_
    rintro _ ⟨⟩
    refine allocated.release rfl rfl rfl rfl rfl rfl rfl
      ⟨ctx.op.complete .failed .releasedBeforeCompletion receipt now, named, id.symm ▸ own,
        Finished.complete (.inr (.inl rfl)), entry _ _, finished, .inr (confirmed _ rfl ?_)⟩
    have counted : 0 < ctx.op.attemptCount := by
      have once := (created create).1
      omega
    exact .inl counted
  · have attempted : 0 < ctx.op.attemptCount ∨ ctx.op.kind = .destroy ∧ ¬strict := by
      by_cases promised : strict
      · exact .inl (stopped promised destroy)
      · exact .inr ⟨destroy, promised⟩
    rw [destroy] at holds
    have changed : (s.recovered ctx receipt now).operations = s.destroyedRows ctx.op receipt now := by
      unfold Lifecycle.recovered
      rw [if_pos destroy]
    obtain ⟨own, rows, finished⟩ := destroyed_rows inv holds changed
    refine inv.release rfl rows finished empty ?_
    rintro _ ⟨⟩
    exact allocated.release rfl rfl rfl rfl rfl rfl rfl
      ⟨ctx.op.complete .succeeded .destroyed receipt now, named, own, Finished.complete (.inl rfl),
        entry _ _, finished, .inr (confirmed _ rfl attempted)⟩

theorem recordPreviousRelease_inv {observation : PreviousAllocationObservation}
    (inv : LifecycleInv strict allowSimulated c s)
    (stopped : strict → ∀ op ∈ s.op claim.operationId, op.Fenced claim now → op.kind = .destroy →
      op.phase = some .reconcilingPreviousEpoch → 0 < op.attemptCount)
    (h : recordPreviousRelease s claim observation allowSimulated now = .ok s') :
    LifecycleInv strict allowSimulated c s' := by
  unfold recordPreviousRelease at h
  obtain ⟨request, _, h⟩ := bind_ok.mp h
  obtain ⟨release, _, h⟩ := bind_ok.mp h
  obtain ⟨_, permitted, h⟩ := bind_ok.mp h
  obtain ⟨ctx, found, h⟩ := bind_ok.mp h
  obtain ⟨holds, known⟩ := previousContext_ok found
  obtain ⟨state, _, h⟩ := bind_ok.mp h
  obtain ⟨_, checked, h⟩ := bind_ok.mp h
  obtain ⟨phase, _, _, positive, _, created, _⟩ := ensure_ok.mp checked
  obtain ⟨_, _, h⟩ := bind_ok.mp h
  rw [← pure_ok.mp h]
  exact recovered_inv inv holds known positive (ensure_ok.mp permitted) created
    fun promised destroy => stopped promised ctx.op holds.found holds.fenced destroy phase

/-! ### Runs -/

theorem map_fst_ok {ε α β : Type} {x : Except ε (α × β)} {a : α} (h : x.map Prod.fst = .ok a) :
    ∃ b, x = .ok (a, b) := by
  obtain ⟨⟨_, b⟩, ran, rfl⟩ := map_ok.mp h
  exact ⟨b, ran⟩

theorem lifecycleStep_inv (s : Lifecycle) (event : LifecycleEvent)
    (inv : LifecycleInv strict allowSimulated c s) (met : strict → StopDispatched s event) :
    LifecycleInv strict allowSimulated c (lifecycleStep allowSimulated s event) := by
  cases event with
  | claimLifecycle id lease now =>
    exact commit_keeps inv fun _ h => inv.touch (claimLifecycle_touch h)
  | renewLifecycle claim lease now =>
    exact commit_keeps inv fun _ h => inv.touch (renewLifecycle_touch h)
  | deferLifecycle claim delay now =>
    exact commit_keeps inv fun _ h => inv.touch (deferLifecycle_touch h)
  | reserveCreate claim id host expectedEpoch checks now =>
    exact commit_keeps inv fun _ h => reserveCreate_inv inv h
  | prepareCreateDispatch claim checks now =>
    refine commit_keeps inv fun _ h => ?_
    obtain ⟨_, ran⟩ := map_fst_ok h
    exact inv.touch (prepareCreateDispatch_touch ran)
  | recordCreateUnknown claim now =>
    exact commit_keeps inv fun _ h => inv.touch (recordCreateUnknown_touch h)
  | recordCreateObservation claim observation now =>
    exact commit_keeps inv fun _ h => recordCreateObservation_inv inv h
  | rejectUndispatchedCreate claim reason now =>
    exact commit_keeps inv fun _ h => rejectUndispatchedCreate_inv inv h
  | admitDestroy id authorized now =>
    refine commit_keeps inv fun _ h => ?_
    obtain ⟨_, ran⟩ := map_fst_ok h
    exact admitDestroy_inv inv ran
  | prepareDestroy claim retryStop now =>
    refine commit_keeps inv fun _ h => ?_
    obtain ⟨_, ran⟩ := map_fst_ok h
    exact inv.touch (prepareDestroy_touch inv ran)
  | recordDestroyUnknown claim now =>
    exact commit_keeps inv fun _ h => inv.touch (recordDestroyUnknown_touch h)
  | recordDestroyObservation claim observation now =>
    exact commit_keeps inv fun _ h => recordDestroyObservation_inv now.2 inv h
  | preparePreviousAllocation claim host reportingEpoch now =>
    refine commit_keeps inv fun _ h => ?_
    obtain ⟨_, ran⟩ := map_fst_ok h
    exact inv.touch (preparePreviousAllocation_touch ran)
  | recordPreviousUnknown claim request now =>
    exact commit_keeps inv fun _ h => inv.touch (recordPreviousUnknown_touch h)
  | recordPreviousRelease claim observation now =>
    exact commit_keeps inv fun _ h => recordPreviousRelease_inv inv met h
  | claimAllocation host epoch lease now =>
    exact commit_keeps inv fun _ h => inv.touch (claimAllocation_touch h)
  | prepareLease claim operation projectActive now =>
    refine commit_keeps inv fun _ h => ?_
    obtain ⟨_, ran⟩ := map_fst_ok h
    exact prepareLease_inv inv ran
  | deferAllocation claim now =>
    exact commit_keeps inv fun _ h => inv.touch (deferAllocation_touch h)
  | recordLeaseUnknown claim now =>
    exact commit_keeps inv fun _ h => inv.touch (recordLeaseUnknown_touch h)
  | recordLeaseObservation claim operation observation projectActive now =>
    exact commit_keeps inv fun _ h => recordLeaseObservation_inv inv h
  | markHostRuntimeUnknown host epoch =>
    exact commit_keeps inv fun _ h => inv.touch (markHostRuntimeUnknown_touch h)
  | markPreviousEpochUnknown host epoch =>
    exact commit_keeps inv fun _ h => inv.touch (markPreviousEpochUnknown_touch h)
  | compactLifecycle id => exact commit_keeps inv fun _ h => compactLifecycle_inv inv h
  | registerHost host epoch =>
    exact commit_keeps inv fun _ h => inv.touch (registerHost_touch h)

theorem admitCreate_inv {projectId : ProjectId} {sandboxId : SandboxId} {expiresAt : Option Time}
    {hostEpoch : HostId → ℤ} :
    LifecycleInv strict allowSimulated c (admitCreate projectId sandboxId c expiresAt hostEpoch) := by
  have own : (admitCreate projectId sandboxId c expiresAt hostEpoch).op c =
      some (createRow projectId sandboxId c) := by
    simp [admitCreate, Lifecycle.op, Table.find, createRow]
  refine ⟨?_, ⟨_, own⟩, fun gone => (by cases gone), ?_, fun gone => (by cases gone),
    fun _ gone => (by cases gone), fun _ => rfl, fun _ gone => by cases gone⟩
  · intro id op found
    have same := op_id found
    have only : op = createRow projectId sandboxId c := by
      simpa [admitCreate] using Table.find_mem found
    rw [only]
    exact ⟨rfl, rfl, .inl ⟨rfl, rfl⟩, le_rfl, le_rfl, fun held => absurd rfl held,
      fun terminal => absurd terminal (by decide : ¬Status.queued.Terminal)⟩
  · rintro _ ⟨⟩ other
    exact absurd rfl other

theorem lifecycle_run_inv {projectId : ProjectId} {sandboxId : SandboxId} {expiresAt : Option Time}
    {hostEpoch : HostId → ℤ} (events : List LifecycleEvent)
    (met : strict → Along (lifecycleStep allowSimulated) StopDispatched
      (admitCreate projectId sandboxId c expiresAt hostEpoch) events) :
    LifecycleInv strict allowSimulated c (run (lifecycleStep allowSimulated)
      (admitCreate projectId sandboxId c expiresAt hostEpoch) events) := by
  by_cases promised : strict
  · exact run_guarded (fun s event inv here => lifecycleStep_inv s event inv fun _ => here)
      admitCreate_inv (met promised)
  · exact run_invariant (fun s event inv => lifecycleStep_inv s event inv fun h => absurd h promised)
      admitCreate_inv

/-! ### Retirement -/

/-- The one thing that retirement asks of a release and not every writer establishes. -/
def Attempted (s : Lifecycle) (a : AllocationRow) : Prop :=
  ∀ receipt ∈ a.releaseEvidence, receipt.phase = .allocationReleased →
    ∀ id ∈ receipt.operationId, ∀ row ∈ s.op id, 0 < row.attemptCount

theorem createValid_of_permitted {p : Permit} (inv : LifecycleInv strict allowSimulated c s)
    (permitted : Permitted c s.sandbox a p) (finished : s.CreateFinished c) : s.CreateValid p := by
  obtain ⟨op, found, done⟩ := finished
  have row := inv.rows c op found
  have create : op.kind = .create := by
    rcases row.kind with ⟨create, _⟩ | ⟨_, other⟩
    · exact create
    · exact absurd (op_id found) other
  refine ⟨op, permitted.createOperation ▸ found, ?_, ?_, create, done⟩
  · rw [row.projectId, permitted.project]
  · rw [row.sandboxId, permitted.sandbox]

theorem releaseSimulated_of_rejected {row : LifecycleOperation} {receipt : LifecycleEvidence} {p : Permit}
    {epoch : ℤ} (same : p.createOperation = c) (operation : receipt.operationId = some row.id)
    (rejected : Rejected c row receipt) : releaseSimulated receipt row p epoch = .ok false := by
  obtain ⟨phase, id, absent, zero, status, ended⟩ := rejected
  unfold releaseSimulated
  rw [phase]
  dsimp only
  refine bind_ok.mpr ⟨(), ensure_ok.mpr ⟨?_, absent, zero, status, ended⟩, rfl⟩
  rw [operation, id, same]

theorem releaseSimulated_of_confirmed {row : LifecycleOperation} {receipt : LifecycleEvidence} {p : Permit}
    {epoch : ℤ} {sandbox : SandboxRow} (permitted : Permitted c sandbox a p)
    (confirmed : Confirmed strict allowSimulated epoch sandbox a row receipt)
    (attempted : 0 < row.attemptCount) :
    ∃ simulated, releaseSimulated receipt row p epoch = .ok simulated ∧
      (simulated = true → allowSimulated = true) := by
  obtain ⟨phase, host, project, sandboxId, allocation, generation, supervisorEpoch, reporting,
    ⟨v, claim, positive, latest⟩, ⟨t, observed, later⟩, ⟨b, simulated, allowed⟩, _⟩ := confirmed
  refine ⟨b, ?_, allowed⟩
  unfold releaseSimulated
  rw [phase]
  dsimp only
  refine bind_ok.mpr ⟨(), ensure_ok.mpr ⟨?_, ?_, ?_, ?_⟩, bind_ok.mpr ⟨(), ensure_ok.mpr ?_,
    okOr_ok.mpr simulated⟩⟩
  · rw [permitted.host]
    exact host
  · rw [permitted.project]
    exact project
  · rw [permitted.sandbox]
    exact sandboxId
  · rw [permitted.allocation]
    exact allocation
  · refine ⟨attempted, ?_, ?_, ?_, ?_, ⟨t, observed, later⟩, v, claim, positive⟩
    · rw [permitted.originalEpoch]
      exact reporting
    · intro w written
      rw [claim] at written
      cases written
      exact latest
    · rw [permitted.generation]
      exact generation
    · rw [permitted.originalEpoch]
      exact supervisorEpoch

/-- A release that was attempted is accepted, whichever transaction recorded it. -/
theorem release_of_inv {p : Permit} (inv : LifecycleInv strict allowSimulated c s)
    (held : s.allocation = some a) (released : a.status = .released) (issued : s.permit = some p)
    (attempted : Attempted s a) :
    ∃ result, release s a p allowSimulated (s.hostEpoch a.hostId) = .ok result := by
  have allocated := inv.allocation a held
  have at_ := allocated.status.mp released
  obtain ⟨p', issued', permitted⟩ := allocated.permit
  cases Option.some.inj (issued.symm.trans issued')
  obtain ⟨row, receipt, written, operation, stored, finished, entry, create, legitimate⟩ :=
    allocated.released at_
  have rowInv := inv.rows _ row stored
  obtain ⟨simulated, phase, allowed⟩ :
      ∃ simulated, releaseSimulated receipt row p (s.hostEpoch a.hostId) = .ok simulated ∧
        (simulated = true → allowSimulated = true) := by
    rcases legitimate with rejected | confirmed
    · exact ⟨false, releaseSimulated_of_rejected permitted.createOperation operation rejected, nofun⟩
    · exact releaseSimulated_of_confirmed permitted confirmed
        (attempted receipt written confirmed.phase row.id operation row stored)
  refine ⟨(receipt, simulated), bind_ok.mpr ⟨(), ensure_ok.mpr ⟨released, at_⟩, bind_ok.mpr ⟨receipt,
    okOr_ok.mpr written, bind_ok.mpr ⟨row.id, okOr_ok.mpr operation, bind_ok.mpr ⟨row,
    okOr_ok.mpr stored, bind_ok.mpr ⟨(), ensure_ok.mpr ⟨?_, ?_, ?_⟩, bind_ok.mpr ⟨(),
    ensure_ok.mpr ⟨createValid_of_permitted inv permitted create, ?_, finished, entry⟩, bind_ok.mpr
    ⟨simulated, phase, bind_ok.mpr ⟨(), ensure_ok.mpr allowed, rfl⟩⟩⟩⟩⟩⟩⟩⟩⟩
  · rw [rowInv.projectId, permitted.project]
  · rw [rowInv.sandboxId, permitted.sandbox]
  · exact rowInv.kind.imp And.left And.left
  · intro create
    rcases rowInv.kind with ⟨_, own⟩ | ⟨destroy, _⟩
    · rw [own, permitted.createOperation]
    · rw [create] at destroy
      cases destroy

/-- Retirement refuses a host's release under a row that counts no attempt, for ever. -/
theorem attempted_of_release {p : Permit} {epoch : ℤ} {result : LifecycleEvidence × Bool}
    (h : release s a p allowSimulated epoch = .ok result) : Attempted s a := by
  unfold release at h
  obtain ⟨_, _, h⟩ := bind_ok.mp h
  obtain ⟨receipt, written, h⟩ := bind_ok.mp h
  obtain ⟨operation, named, h⟩ := bind_ok.mp h
  obtain ⟨row, stored, h⟩ := bind_ok.mp h
  obtain ⟨_, _, h⟩ := bind_ok.mp h
  obtain ⟨_, _, h⟩ := bind_ok.mp h
  obtain ⟨simulated, phase, _⟩ := bind_ok.mp h
  intro other held released id own found_ found
  have sameReceipt := Option.some.inj ((okOr_ok.mp written).symm.trans held)
  subst sameReceipt
  have sameId := Option.some.inj ((okOr_ok.mp named).symm.trans own)
  subst sameId
  have sameRow := Option.some.inj ((okOr_ok.mp stored).symm.trans found)
  subst sameRow
  unfold releaseSimulated at phase
  rw [released] at phase
  obtain ⟨_, _, phase⟩ := bind_ok.mp phase
  obtain ⟨_, bounded, _⟩ := bind_ok.mp phase
  exact (ensure_ok.mp bounded).1

/-- In every reachable state, a release is accepted exactly when its row counts an attempt or it
was never dispatched. -/
theorem release_accepted_iff {projectId : ProjectId} {sandboxId : SandboxId}
    {expiresAt : Option Time} {hostEpoch : HostId → ℤ} {p : Permit} (events : List LifecycleEvent)
    (reached : s = run (lifecycleStep allowSimulated)
      (admitCreate projectId sandboxId c expiresAt hostEpoch) events)
    (held : s.allocation = some a) (released : a.status = .released) (issued : s.permit = some p) :
    (∃ result, release s a p allowSimulated (s.hostEpoch a.hostId) = .ok result) ↔ Attempted s a := by
  have inv : LifecycleInv False allowSimulated c s := by
    rw [reached]
    exact lifecycle_run_inv events False.elim
  exact ⟨fun ⟨_, accepted⟩ => attempted_of_release accepted, release_of_inv inv held released issued⟩

end Steps

/-! ### One sandbox, stopped by its owner or recovered after its host restarted -/

namespace LifecycleSample

def at_ (n : ℤ) (late : seconds 10 < seconds n := by decide) : Clock := ⟨seconds n, late⟩

def start : Lifecycle := admitCreate ⟨1⟩ ⟨2⟩ ⟨5⟩ none fun _ => 1

def create : Claim := { operationId := ⟨5⟩, revision := 1 }

def destroy : Claim := { operationId := ⟨6⟩, revision := 1 }

def owner (operation : OperationId) (expires : ℤ) : Ownership :=
  { hostId := ⟨4⟩, projectId := ⟨1⟩, sandboxId := ⟨2⟩, allocationId := ⟨3⟩, operationId := operation,
    generation := 1, supervisorEpoch := 1, claimRevision := 1, claimExpiresUnixMs := expires }

def observation (owner : Ownership) (state : AllocationState) (observed : ℤ) : Observation :=
  { ownership := some owner, state := state.toInt, simulated := false, startCount := 1,
    createOperationId := some ⟨5⟩, observedUnixMs := observed }

/-- Placed, dispatched and ready. -/
def launched : List LifecycleEvent :=
  [.claimLifecycle ⟨5⟩ 60 (at_ 20),
    .reserveCreate create ⟨3⟩ ⟨4⟩ 1
      { resources := true, quota := true, ready := true, compatible := true, authorized := true,
        capacity := true, serial := some 1 } (at_ 21),
    .prepareCreateDispatch create
      { authorized := true, imageAllowed := true, fresh := true, resources := true,
        compatible := true } (at_ 22),
    .recordCreateObservation create (observation (owner ⟨5⟩ 80000) .ready 24000) (at_ 24)]

def stopped : List LifecycleEvent :=
  launched ++
    [.admitDestroy ⟨6⟩ true (at_ 30), .claimLifecycle ⟨6⟩ 60 (at_ 31), .prepareDestroy destroy false (at_ 32),
      .recordDestroyObservation destroy (observation (owner ⟨6⟩ 91000) .released 33000) (at_ 33)]

/-- The host restarts, the service admits its own destroy, and that destroy recovers the earlier
epoch's allocation without ever dispatching a stop. -/
def restarted : List LifecycleEvent :=
  launched ++
    [.registerHost ⟨4⟩ 2, .claimAllocation ⟨4⟩ 2 60 (at_ 35),
      .prepareLease { allocationId := ⟨3⟩, revision := 1 } ⟨6⟩ true (at_ 36),
      .claimLifecycle ⟨6⟩ 60 (at_ 37), .preparePreviousAllocation destroy ⟨4⟩ 2 (at_ 38),
      .recordPreviousRelease destroy
        { request := some { ownership := some (owner ⟨6⟩ 97000), reportingEpoch := 2 },
          release := some (observation (owner ⟨6⟩ 97000) .released 39000) } (at_ 39)]

def after (events : List LifecycleEvent) : Lifecycle := run (lifecycleStep false) start events

def answer (s : Lifecycle) : Option (Except RetirementError (LifecycleEvidence × Bool)) := do
  let a ← s.allocation
  let p ← s.permit
  pure (release s a p false (s.hostEpoch a.hostId))

def allocated : AllocationRow :=
  { id := ⟨3⟩, projectId := ⟨1⟩, sandboxId := ⟨2⟩, hostId := ⟨4⟩, generation := 1,
    supervisorEpoch := 1, status := .released, leaseExpiresAt := some (seconds 82)
    releaseEvidence := some (destroyReceipt (owner ⟨6⟩ 91000) (observation (owner ⟨6⟩ 91000) .released 33000))
    releasedAt := some (seconds 33), maintenanceRevision := 0, maintenanceLeaseUntil := none,
    maintenanceNextAt := some (seconds 34), renewalPending := false, leaseRequestedUntil := none }

def permit : Permit :=
  { host := ⟨4⟩, project := ⟨1⟩, sandbox := ⟨2⟩, allocation := ⟨3⟩, createOperation := ⟨5⟩,
    generation := 1, originalEpoch := 1, serial := 1 }

end LifecycleSample
end HudsonSandbox.Store
