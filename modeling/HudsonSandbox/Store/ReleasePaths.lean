import HudsonSandbox.Store.Dispatch
import HudsonSandbox.Store.Quotas

/-!
# The paths to a release

Capacity is freed on the word of a host about exactly that allocation, or because its create was
never sent. A sandbox is seen as destroyed only when nothing of it is left.
-/

namespace HudsonSandbox.Store
open Checked LiveOutput Supervisor AllocationAuthority Run

/-- A transaction under the simulation policy of the deployment that runs it. -/
def deployedStep (s : Lifecycle) (event : Bool × LifecycleEvent) : Lifecycle :=
  lifecycleStep event.1 s event.2

/-- The host's report that a transaction relies on. -/
def LifecycleEvent.reported : LifecycleEvent → Option Observation
  | .recordCreateObservation _ observation _ => some observation
  | .recordDestroyObservation _ observation _ => some observation
  | .recordPreviousRelease _ observation _ => observation.release
  | _ => none

/-- The report is of a release, under the owner of this allocation. -/
structure Confirms (a : AllocationRow) (o : Observation) : Prop where
  state : AllocationState.tryFrom o.state = some .released ∨
    AllocationState.tryFrom o.state = some .fencedAbsent
  owner : ∃ owner ∈ o.ownership, owner.hostId = a.hostId ∧ owner.projectId = a.projectId ∧
    owner.sandboxId = a.sandboxId ∧ owner.allocationId = a.id ∧ owner.generation = a.generation ∧
    owner.supervisorEpoch = a.supervisorEpoch

inductive ReleasedBy (s : Lifecycle) (a : AllocationRow) : LifecycleEvent → Prop where
  | confirmed {event : LifecycleEvent} {o : Observation} (reported : event.reported = some o)
      (confirms : Confirms a o) : ReleasedBy s a event
  | rejected {claim : Claim} {reason : CreateRejection} {now : Clock} {op : LifecycleOperation}
      (found : s.op claim.operationId = some op) (create : op.kind = .create)
      (undispatched : op.attemptCount = 0) :
      ReleasedBy s a (.rejectUndispatchedCreate claim reason now)

/-! ### What one transaction does to the reservation -/

def SameRelease (a a' : AllocationRow) : Prop :=
  a'.toAllocation = a.toAllocation ∧ a'.releasedAt = a.releasedAt

structure KeepsPlace (s s' : Lifecycle) : Prop where
  id : s'.sandbox.id = s.sandbox.id
  project : s'.sandbox.projectId = s.sandbox.projectId
  allocation : Option.Rel SameRelease s.allocation s'.allocation
  current : s'.sandbox.currentAllocationId = s.sandbox.currentAllocationId
  destroyed : s'.sandbox.observedState = .destroyed →
    s.sandbox.observedState = .destroyed ∨ s.sandbox.currentAllocationId = none

structure Places (s s' : Lifecycle) : Prop where
  id : s'.sandbox.id = s.sandbox.id
  project : s'.sandbox.projectId = s.sandbox.projectId
  creating : s'.sandbox.observedState = .creating
  placed : ∃ a, s'.allocation = some a ∧ a.releasedAt = none ∧ a.projectId = s.sandbox.projectId ∧
    a.sandboxId = s.sandbox.id ∧ s'.sandbox.currentAllocationId = some a.id

structure Releases (s s' : Lifecycle) (a : AllocationRow) : Prop where
  held : s.allocation = some a
  unreleased : a.releasedAt = none
  released : ∃ a', s'.allocation = some a' ∧ a'.toAllocation = a.toAllocation ∧ a'.releasedAt ≠ none
  sandbox : s'.sandbox = s.sandbox.destroy

/-- What holds of the reservation at every commit. -/
structure PlaceInv (s : Lifecycle) : Prop where
  owned : ∀ a ∈ s.allocation, a.projectId = s.sandbox.projectId ∧ a.sandboxId = s.sandbox.id
  current : ∀ a ∈ s.allocation, a.releasedAt = none → s.sandbox.currentAllocationId = some a.id
  destroyed : s.sandbox.observedState = .destroyed → s.sandbox.currentAllocationId = none

section Place
variable {allowSimulated : Bool} {c : OperationId} {s s' next : Lifecycle} {a a' : AllocationRow}
  {claim : Claim} {now : Time}

theorem sameRelease_refl {held : Option AllocationRow} : Option.Rel SameRelease held held := by
  cases held with
  | none => exact .none
  | some a => exact .some ⟨rfl, rfl⟩

theorem SameRelease.of_rel {held held' : Option AllocationRow}
    (same : Option.Rel SameAllocation held held') : Option.Rel SameRelease held held' := by
  cases same with
  | none => exact .none
  | some same => exact .some ⟨same.identity, same.releasedAt⟩

/-- A further write of the later row that leaves its identity and release alone. -/
theorem SameRelease.map {held held' : Option AllocationRow} {write : AllocationRow → AllocationRow}
    (kept : ∀ a, SameRelease a (write a)) (same : Option.Rel SameRelease held held') :
    Option.Rel SameRelease held (held'.map write) := by
  cases same with
  | none => exact .none
  | some same => exact .some ⟨(kept _).1.trans same.1, (kept _).2.trans same.2⟩

/-- The row before, where there is one after. -/
theorem SameRelease.before {held held' : Option AllocationRow}
    (same : Option.Rel SameRelease held held') : ∀ a' ∈ held', ∃ a ∈ held, SameRelease a a' := by
  intro a' stored
  cases same with
  | none => cases stored
  | some same =>
    cases stored
    exact ⟨_, rfl, same⟩

theorem KeepsPlace.of_touch (touch : Touch s s') : KeepsPlace s s' :=
  ⟨touch.sandbox.id, touch.sandbox.projectId, SameRelease.of_rel touch.allocation, touch.sandbox.current,
    fun gone => .inl (touch.sandbox.destroyed gone)⟩

theorem KeepsPlace.refl : KeepsPlace s s :=
  ⟨rfl, rfl, sameRelease_refl, rfl, .inl⟩

/-- A transaction that wrote only the maintenance columns of the allocation. -/
theorem KeepsPlace.of_maintained (held : s.allocation = some a) (allocation : s'.allocation = some a')
    (same : SameRelease a a') (id : s'.sandbox.id = s.sandbox.id)
    (project : s'.sandbox.projectId = s.sandbox.projectId)
    (current : s'.sandbox.currentAllocationId = s.sandbox.currentAllocationId)
    (alive : s'.sandbox.observedState ≠ .destroyed) : KeepsPlace s s' := by
  refine ⟨id, project, ?_, current, fun gone => absurd gone alive⟩
  rw [held, allocation]
  exact .some same

theorem KeepsPlace.inv (inv : PlaceInv s) (keeps : KeepsPlace s s') : PlaceInv s' := by
  have before := SameRelease.before keeps.allocation
  refine ⟨fun a' stored => ?_, fun a' stored free => ?_, fun gone => ?_⟩
  · obtain ⟨a, held, identity, _⟩ := before a' stored
    obtain ⟨project, sandbox⟩ := inv.owned a held
    rw [identity, keeps.project, keeps.id]
    exact ⟨project, sandbox⟩
  · obtain ⟨a, held, identity, released⟩ := before a' stored
    rw [keeps.current, identity]
    exact inv.current a held (released.symm.trans free)
  · rw [keeps.current]
    rcases keeps.destroyed gone with destroyed | none
    · exact inv.destroyed destroyed
    · exact none

theorem Places.inv (places : Places s s') : PlaceInv s' := by
  obtain ⟨a, stored, free, project, sandbox, current⟩ := places.placed
  refine ⟨fun b held => ?_, fun b held _ => ?_, fun gone => ?_⟩
  · rw [stored] at held
    cases held
    rw [places.project, places.id]
    exact ⟨project, sandbox⟩
  · rw [stored] at held
    cases held
    exact current
  · rw [places.creating] at gone
    cases gone

theorem Releases.inv (inv : PlaceInv s) (releases : Releases s s' a) : PlaceInv s' := by
  obtain ⟨a', stored, identity, released⟩ := releases.released
  refine ⟨fun b held => ?_, fun b held free => ?_, fun _ => ?_⟩
  · rw [stored] at held
    cases held
    rw [identity, releases.sandbox]
    exact inv.owned a releases.held
  · rw [stored] at held
    cases held
    exact absurd free released
  · rw [releases.sandbox]
    rfl

/-! ### The transactions -/

/-- The owner of a claim holder's context is the owner of its allocation. -/
theorem Confirms.of_context {kind : Kind} {reportingEpoch : Option ℤ} {ctx : Context} {o : Observation}
    (inv : LifecycleInv False true c s) (place : PlaceInv s)
    (holds : Holds s claim kind reportingEpoch now ctx) (owner : o.ownership = some ctx.owner)
    (state : AllocationState.tryFrom o.state = some .released ∨
      AllocationState.tryFrom o.state = some .fencedAbsent) : Confirms ctx.allocation o := by
  refine ⟨state, ctx.owner, owner, ?_⟩
  have row := inv.rows _ _ holds.found
  obtain ⟨project, sandbox⟩ := place.owned _ holds.allocation
  rw [holds.owner]
  exact ⟨rfl, row.projectId.trans project.symm, row.sandboxId.trans sandbox.symm, rfl, rfl, rfl⟩

theorem reserveCreate_place {id : AllocationId} {host : HostId} {expectedEpoch : ℤ}
    {checks : PlacementChecks} (inv : LifecycleInv False true c s)
    (h : reserveCreate s claim id host expectedEpoch checks now = .ok s') :
    KeepsPlace s s' ∨ Places s s' := by
  unfold reserveCreate at h
  obtain ⟨op, found, h⟩ := bind_ok.mp h
  iterate 2 obtain ⟨_, _, h⟩ := bind_ok.mp h
  have row := inv.rows _ op (okOr_ok.mp found)
  split at h
  · obtain ⟨_, _, h⟩ := bind_ok.mp h
    rw [← pure_ok.mp h]
    exact .inl .refl
  · obtain ⟨_, fresh, h⟩ := bind_ok.mp h
    iterate 7 obtain ⟨_, _, h⟩ := bind_ok.mp h
    rw [← pure_ok.mp h]
    exact .inr ⟨rfl, rfl, (ensure_ok.mp fresh).2.2.2.1, _, rfl, rfl, row.projectId, row.sandboxId, rfl⟩

theorem recordCreateObservation_place {observation : Observation} {now : Clock}
    (inv : LifecycleInv False true c s) (place : PlaceInv s)
    (h : recordCreateObservation s claim observation allowSimulated now = .ok s') :
    KeepsPlace s s' ∨ ∃ a, Releases s s' a ∧ ReleasedBy s a (.recordCreateObservation claim observation now) := by
  unfold recordCreateObservation at h
  obtain ⟨_, _, h⟩ := bind_ok.mp h
  obtain ⟨ctx, found, h⟩ := bind_ok.mp h
  have holds := contextAtEpoch_ok found
  obtain ⟨_, owned, h⟩ := bind_ok.mp h
  obtain ⟨_, _, h⟩ := bind_ok.mp h
  obtain ⟨state, read, h⟩ := bind_ok.mp h
  obtain ⟨_, either, h⟩ := bind_ok.mp h
  split at h
  · obtain ⟨_, _, h⟩ := bind_ok.mp h
    rw [← pure_ok.mp h]
    refine .inl (.of_maintained holds.allocation rfl ⟨rfl, rfl⟩ rfl rfl rfl ?_)
    intro gone
    cases gone
  next unready =>
    have released : state = .released := (ensure_ok.mp either).resolve_left unready
    rw [← pure_ok.mp h]
    refine .inr ⟨ctx.allocation, ⟨holds.allocation, holds.unreleased, ?_, rfl⟩, ?_⟩
    · exact ⟨_, rfl, rfl, Option.some_ne_none _⟩
    · refine .confirmed rfl (.of_context inv place holds (ensure_ok.mp owned).1 (.inl ?_))
      rw [← released]
      exact okOr_ok.mp read

/-- A reservation is released with a rejection only where its create was never attempted. -/
theorem rejectUndispatchedCreate_place {reason : CreateRejection} {now : Clock}
    (h : rejectUndispatchedCreate s claim reason now = .ok s') :
    KeepsPlace s s' ∨ ∃ a, Releases s s' a ∧ ReleasedBy s a (.rejectUndispatchedCreate claim reason now) := by
  unfold rejectUndispatchedCreate at h
  obtain ⟨op, found, h⟩ := bind_ok.mp h
  obtain ⟨_, create, h⟩ := bind_ok.mp h
  iterate 2 obtain ⟨_, _, h⟩ := bind_ok.mp h
  obtain ⟨allocation, freed, h⟩ := bind_ok.mp h
  have create := ensure_ok.mp create
  rw [← pure_ok.mp h]
  unfold rejectedAllocation at freed
  cases current : s.sandbox.currentAllocationId with
  | none =>
    rw [current] at freed
    cases freed
    exact .inl ⟨rfl, rfl, sameRelease_refl, current.symm, fun _ => .inr current⟩
  | some id =>
    rw [current] at freed
    obtain ⟨a, unreleased, freed⟩ := bind_ok.mp freed
    obtain ⟨_, _, freed⟩ := bind_ok.mp freed
    cases pure_ok.mp freed
    obtain ⟨held, _, free⟩ := unreleased_eq (okOr_ok.mp unreleased)
    refine .inr ⟨a, ⟨held, free, ⟨_, rfl, rfl, Option.some_ne_none _⟩, rfl⟩, ?_⟩
    exact .rejected (okOr_ok.mp found) create.2.2.1 create.2.2.2

theorem admitDestroy_place {id : OperationId} {authorized : Bool} {admission : DestroyAdmission}
    (h : admitDestroy s id authorized now = .ok (s', admission)) : KeepsPlace s s' := by
  unfold admitDestroy at h
  split at h
  · cases h
    exact .refl
  split at h
  · cases h
    exact .refl
  iterate 2 obtain ⟨_, _, h⟩ := bind_ok.mp h
  cases pure_ok.mp h
  unfold Lifecycle.admitted
  dsimp only
  split
  next none => exact ⟨rfl, rfl, sameRelease_refl, rfl, .inl⟩
  next some =>
    refine ⟨rfl, rfl, sameRelease_refl, rfl, fun gone => .inr ?_⟩
    -- destroyed at once: there was nothing to destroy
    by_cases immediate : s.NoOp ∨ s.NeverAllocated
    · rcases immediate with noOp | never
      · exact noOp.2
      · exact never.1
    · simp [immediate] at gone

theorem prepareDestroy_place {retryStop : Bool} {action : DestroyAction}
    (inv : LifecycleInv False true c s)
    (h : prepareDestroy s claim retryStop now = .ok (s', action)) : KeepsPlace s s' :=
  .of_touch (prepareDestroy_touch inv h)

theorem recordDestroyObservation_place {observation : Observation} {now : Clock}
    (inv : LifecycleInv False true c s) (place : PlaceInv s)
    (h : recordDestroyObservation s claim observation allowSimulated now = .ok s') :
    ∃ a, Releases s s' a ∧ ReleasedBy s a (.recordDestroyObservation claim observation now) := by
  unfold recordDestroyObservation at h
  obtain ⟨_, _, h⟩ := bind_ok.mp h
  obtain ⟨ctx, found, h⟩ := bind_ok.mp h
  have holds := contextAtEpoch_ok found
  obtain ⟨_, owned, h⟩ := bind_ok.mp h
  obtain ⟨_, _, h⟩ := bind_ok.mp h
  obtain ⟨owner, _, state⟩ := ensure_ok.mp owned
  rw [← pure_ok.mp h]
  refine ⟨ctx.allocation, ⟨holds.allocation, holds.unreleased, ?_, rfl⟩, ?_⟩
  · exact ⟨_, rfl, rfl, Option.some_ne_none _⟩
  · exact .confirmed rfl (.of_context inv place holds owner state)

theorem recordPreviousRelease_place {observation : PreviousAllocationObservation} {now : Clock}
    (inv : LifecycleInv False true c s) (place : PlaceInv s)
    (h : recordPreviousRelease s claim observation allowSimulated now = .ok s') :
    ∃ a, Releases s s' a ∧ ReleasedBy s a (.recordPreviousRelease claim observation now) := by
  unfold recordPreviousRelease at h
  obtain ⟨request, _, h⟩ := bind_ok.mp h
  obtain ⟨release, reported, h⟩ := bind_ok.mp h
  obtain ⟨_, _, h⟩ := bind_ok.mp h
  obtain ⟨ctx, found, h⟩ := bind_ok.mp h
  obtain ⟨state, read, h⟩ := bind_ok.mp h
  obtain ⟨_, owned, h⟩ := bind_ok.mp h
  obtain ⟨_, _, h⟩ := bind_ok.mp h
  obtain ⟨_, _, owner, _, either, _⟩ := ensure_ok.mp owned
  have holds := (previousContext_ok found).1
  rw [← pure_ok.mp h]
  refine ⟨ctx.allocation, ⟨holds.allocation, holds.unreleased, ?_, rfl⟩, ?_⟩
  · exact ⟨_, rfl, rfl, Option.some_ne_none _⟩
  · refine .confirmed (okOr_ok.mp reported) (.of_context inv place holds owner ?_)
    rcases either with released | fenced
    · rw [← released]
      exact .inl (okOr_ok.mp read)
    · rw [← fenced]
      exact .inr (okOr_ok.mp read)

theorem cleanup_place {id : OperationId} (h : cleanup s id now = .ok s') : KeepsPlace s s' := by
  rw [(cleanup_ok h).2]
  refine ⟨rfl, rfl, sameRelease_refl, rfl, fun gone => ?_⟩
  cases gone

theorem prepareLease_place {claim : AllocationClaim} {id : OperationId} {projectActive : Bool}
    {action : LeaseAction} (h : prepareLease s claim id projectActive now = .ok (s', action)) :
    KeepsPlace s s' := by
  unfold prepareLease at h
  obtain ⟨ctx, found, h⟩ := bind_ok.mp h
  have held := (leaseContext_ok found).1
  dsimp only at h
  split at h
  · obtain ⟨next, admitted, h⟩ := bind_ok.mp h
    obtain ⟨_, rfl⟩ := cleanup_ok admitted
    cases pure_ok.mp h
    refine .of_maintained held rfl ⟨rfl, rfl⟩ rfl rfl rfl fun gone => ?_
    cases gone
  split at h
  · cases pure_ok.mp h
    exact .refl
  split at h
  · cases pure_ok.mp h
    exact .refl
  · cases pure_ok.mp h
    refine ⟨rfl, rfl, ?_, rfl, .inl⟩
    rw [held]
    exact .some ⟨rfl, rfl⟩

theorem recordLeaseObservation_place {claim : AllocationClaim} {id : OperationId}
    {observation : LeaseObservation} {projectActive : Bool}
    (h : recordLeaseObservation s claim id observation projectActive allowSimulated now = .ok s') :
    KeepsPlace s s' := by
  unfold recordLeaseObservation at h
  obtain ⟨_, _, h⟩ := bind_ok.mp h
  obtain ⟨ctx, found, h⟩ := bind_ok.mp h
  have held := (leaseContext_ok found).1
  iterate 2 obtain ⟨_, _, h⟩ := bind_ok.mp h
  obtain ⟨next, observed, h⟩ := bind_ok.mp h
  obtain ⟨_, _, h⟩ := bind_ok.mp h
  have kept : KeepsPlace s next := by
    unfold leaseObserved at observed
    split at observed
    · exact cleanup_place observed
    · exact cleanup_place observed
    · unfold leaseReady at observed
      iterate 3 obtain ⟨_, _, observed⟩ := bind_ok.mp observed
      split at observed
      · exact cleanup_place observed
      · rw [← pure_ok.mp observed]
        refine .of_maintained held rfl ⟨rfl, rfl⟩ rfl rfl rfl fun gone => ?_
        cases gone
    · cases observed
  rw [← pure_ok.mp h]
  -- the maintenance lease ends on whatever the observation left
  exact ⟨kept.id, kept.project, SameRelease.map (fun _ => ⟨rfl, rfl⟩) kept.allocation, kept.current,
    kept.destroyed⟩

theorem compactLifecycle_place {id : OperationId} (h : compactLifecycle s id = .ok s') : KeepsPlace s s' := by
  unfold compactLifecycle at h
  iterate 2 obtain ⟨_, _, h⟩ := bind_ok.mp h
  rw [← pure_ok.mp h]
  exact ⟨rfl, rfl, sameRelease_refl, rfl, .inl⟩

/-- Under whichever policy: the reservation is kept, made or released, and released only by a report
of its own host or the rejection of a create that was never attempted. -/
theorem lifecycleStep_place (event : LifecycleEvent) (inv : LifecycleInv False true c s) (place : PlaceInv s) :
    KeepsPlace s (lifecycleStep allowSimulated s event) ∨
      Places s (lifecycleStep allowSimulated s event) ∨
      ∃ a, Releases s (lifecycleStep allowSimulated s event) a ∧ ReleasedBy s a event := by
  have keeps {ε : Type} {result : Except ε Lifecycle}
      (kept : ∀ next, result = .ok next → KeepsPlace s next) : KeepsPlace s (commit s result) :=
    commit_keeps (P := fun next => KeepsPlace s next) .refl kept
  have touches {ε : Type} {result : Except ε Lifecycle}
      (touch : ∀ next, result = .ok next → Touch s next) : KeepsPlace s (commit s result) :=
    keeps fun next h => .of_touch (touch next h)
  have settles {ε : Type} {result : Except ε Lifecycle} {event : LifecycleEvent}
      (settled : ∀ next, result = .ok next →
        KeepsPlace s next ∨ Places s next ∨ ∃ a, Releases s next a ∧ ReleasedBy s a event) :=
    commit_keeps (P := fun next : Lifecycle => KeepsPlace s next ∨ Places s next ∨
      ∃ a, Releases s next a ∧ ReleasedBy s a event) (.inl .refl) settled
  cases event with
  | claimLifecycle id lease now => exact .inl (touches fun _ h => claimLifecycle_touch h)
  | renewLifecycle claim lease now => exact .inl (touches fun _ h => renewLifecycle_touch h)
  | deferLifecycle claim delay now => exact .inl (touches fun _ h => deferLifecycle_touch h)
  | reserveCreate claim id host expectedEpoch checks now =>
    exact settles fun _ h => (reserveCreate_place inv h).imp_right .inl
  | prepareCreateDispatch claim checks now =>
    refine .inl (touches fun _ h => ?_)
    obtain ⟨_, ran⟩ := map_fst_ok h
    exact prepareCreateDispatch_touch ran
  | recordCreateUnknown claim now => exact .inl (touches fun _ h => recordCreateUnknown_touch h)
  | recordCreateObservation claim observation now =>
    exact settles fun _ h => (recordCreateObservation_place inv place h).imp_right .inr
  | rejectUndispatchedCreate claim reason now =>
    exact settles fun _ h => (rejectUndispatchedCreate_place h).imp_right .inr
  | admitDestroy id authorized now =>
    refine .inl (keeps fun _ h => ?_)
    obtain ⟨_, ran⟩ := map_fst_ok h
    exact admitDestroy_place ran
  | prepareDestroy claim retryStop now =>
    refine .inl (keeps fun _ h => ?_)
    obtain ⟨_, ran⟩ := map_fst_ok h
    exact prepareDestroy_place inv ran
  | recordDestroyUnknown claim now => exact .inl (touches fun _ h => recordDestroyUnknown_touch h)
  | recordDestroyObservation claim observation now =>
    exact settles fun _ h => .inr (.inr (recordDestroyObservation_place inv place h))
  | preparePreviousAllocation claim host reportingEpoch now =>
    refine .inl (touches fun _ h => ?_)
    obtain ⟨_, ran⟩ := map_fst_ok h
    exact preparePreviousAllocation_touch ran
  | recordPreviousUnknown claim request now =>
    exact .inl (touches fun _ h => recordPreviousUnknown_touch h)
  | recordPreviousRelease claim observation now =>
    exact settles fun _ h => .inr (.inr (recordPreviousRelease_place inv place h))
  | claimAllocation host epoch lease now => exact .inl (touches fun _ h => claimAllocation_touch h)
  | prepareLease claim operation projectActive now =>
    refine .inl (keeps fun _ h => ?_)
    obtain ⟨_, ran⟩ := map_fst_ok h
    exact prepareLease_place ran
  | deferAllocation claim now => exact .inl (touches fun _ h => deferAllocation_touch h)
  | recordLeaseUnknown claim now => exact .inl (touches fun _ h => recordLeaseUnknown_touch h)
  | recordLeaseObservation claim operation observation projectActive now =>
    exact .inl (keeps fun _ h => recordLeaseObservation_place h)
  | markHostRuntimeUnknown host epoch => exact .inl (touches fun _ h => markHostRuntimeUnknown_touch h)
  | markPreviousEpochUnknown host epoch => exact .inl (touches fun _ h => markPreviousEpochUnknown_touch h)
  | compactLifecycle id => exact .inl (keeps fun _ h => compactLifecycle_place h)
  | registerHost host epoch => exact .inl (touches fun _ h => registerHost_touch h)

/-! ### Every run -/

/-- What a stricter policy commits the laxer one commits, too. -/
theorem lifecycleStep_policy (s : Lifecycle) (event : LifecycleEvent) :
    lifecycleStep allowSimulated s event = s ∨
      lifecycleStep allowSimulated s event = lifecycleStep true s event := by
  have allowed {simulated : Bool} : ensure (simulated = true → true = true) DispatchError.simulationDenied = .ok () :=
    ensure_ok.mpr fun _ => rfl
  have either {strict lax : Except DispatchError Lifecycle}
      (wider : ∀ next, strict = .ok next → lax = .ok next) :
      commit s strict = s ∨ commit s strict = commit s lax := by
    cases made : strict with
    | error e => exact .inl rfl
    | ok next =>
      rw [wider next made]
      exact .inr rfl
  cases event with
  | recordCreateObservation claim observation now =>
    refine either fun next h => ?_
    obtain ⟨_, h⟩ := seq_ok.mp h
    exact seq_ok.mpr ⟨allowed, h⟩
  | recordDestroyObservation claim observation now =>
    refine either fun next h => ?_
    obtain ⟨_, h⟩ := seq_ok.mp h
    exact seq_ok.mpr ⟨allowed, h⟩
  | recordPreviousRelease claim observation now =>
    refine either fun next h => ?_
    obtain ⟨request, asked, h⟩ := bind_ok.mp h
    obtain ⟨release, reported, h⟩ := bind_ok.mp h
    obtain ⟨_, h⟩ := seq_ok.mp h
    exact bind_ok.mpr ⟨request, asked, bind_ok.mpr ⟨release, reported, seq_ok.mpr ⟨allowed, h⟩⟩⟩
  | recordLeaseObservation claim operation observation projectActive now =>
    refine either fun next h => ?_
    obtain ⟨_, h⟩ := seq_ok.mp h
    exact seq_ok.mpr ⟨allowed, h⟩
  | claimLifecycle | renewLifecycle | deferLifecycle | reserveCreate | prepareCreateDispatch
  | recordCreateUnknown | rejectUndispatchedCreate | admitDestroy | prepareDestroy
  | recordDestroyUnknown | preparePreviousAllocation | recordPreviousUnknown | claimAllocation
  | prepareLease | deferAllocation | recordLeaseUnknown | markHostRuntimeUnknown
  | markPreviousEpochUnknown | compactLifecycle | registerHost => exact .inr rfl

/-- Whatever holds of a state and of what the lax policy makes of it holds after the step. -/
theorem deployedStep_cases {P : Lifecycle → Prop} (event : Bool × LifecycleEvent) (start : P s)
    (step : P (lifecycleStep true s event.2)) : P (deployedStep s event) := by
  unfold deployedStep
  rcases @lifecycleStep_policy event.1 s event.2 with same | lax
  · rw [same]
    exact start
  · rw [lax]
    exact step

/-- The invariant of every reachable state. -/
def Deployed (c : OperationId) (s : Lifecycle) : Prop := LifecycleInv False true c s ∧ PlaceInv s

theorem deployedStep_keeps (s : Lifecycle) (event : Bool × LifecycleEvent) (inv : Deployed c s) :
    Deployed c (deployedStep s event) := by
  refine ⟨deployedStep_cases event inv.1 (lifecycleStep_keeps s event.2 inv.1), ?_⟩
  obtain keeps | places | ⟨a, releases, _⟩ := @lifecycleStep_place event.1 c s event.2 inv.1 inv.2
  · exact keeps.inv inv.2
  · exact places.inv
  · exact releases.inv inv.2

theorem admitCreate_deployed {projectId : ProjectId} {sandboxId : SandboxId} {expiresAt : Option Time}
    {hostEpoch : HostId → ℤ} : Deployed c (admitCreate projectId sandboxId c expiresAt hostEpoch) := by
  refine ⟨admitCreate_inv, fun a held => ?_, fun a held => ?_, fun gone => ?_⟩
  · cases held
  · cases held
  · cases gone

/-- The start that an event answers, under whichever policy. -/
def deployedStarts (s : Lifecycle) (event : Bool × LifecycleEvent) : Option (Ownership × Time) :=
  starts s event.2

theorem deployedStarts_marks : Marks deployedStep (Deployed c) deployedStarts (CreateAttempted c) := by
  have marks := @starts_marks true c
  refine ⟨⟨deployedStep_keeps, ?_, ?_⟩, ?_⟩
  · intro s event inv attempted
    exact deployedStep_cases event attempted (marks.lasts s event.2 inv.1 attempted)
  · intro s event answer inv answered
    exact marks.fresh s event.2 answer inv.1 answered
  · intro s event answer inv answered
    have left := marks.leaves s event.2 answer inv.1 answered
    obtain ⟨claim, checks, now, s', same, _⟩ := starts_ok answered
    unfold deployedStep
    rw [same] at left ⊢
    exact left

/-- A create that can be rejected as undispatched was never started in the whole run. -/
theorem rejected_unstarted {projectId : ProjectId} {sandboxId : SandboxId} {expiresAt : Option Time}
    {hostEpoch : HostId → ℤ} {before : List (Bool × LifecycleEvent)} {op : LifecycleOperation} {id : OperationId}
    (found : (run deployedStep (admitCreate projectId sandboxId c expiresAt hostEpoch) before).op id = some op)
    (create : op.kind = .create) (undispatched : op.attemptCount = 0) :
    answers deployedStep deployedStarts (admitCreate projectId sandboxId c expiresAt hostEpoch) before = [] := by
  have inv : Deployed c (run deployedStep (admitCreate projectId sandboxId c expiresAt hostEpoch) before) :=
    run_invariant deployedStep_keeps admitCreate_deployed
  refine deployedStarts_marks.unanswered admitCreate_deployed fun attempted => ?_
  have own : id = c := by
    rcases (inv.1.rows _ op found).kind with ⟨_, same⟩ | ⟨destroy, _⟩
    · exact (op_id found).symm.trans same
    · rw [create] at destroy
      cases destroy
  obtain ⟨again, held, counted⟩ := attempted
  rw [own, held] at found
  cases found
  omega

/-- Whatever transactions run under whatever policies: the allocation turns released only with a
report of its release under its own owner, or with the rejection of a create that was never
started; and whenever the sandbox is seen as destroyed, its allocation is released and nothing
refers to it or works on it. -/
theorem released_on_evidence (projectId : ProjectId) (sandboxId : SandboxId) (c : OperationId)
    (expiresAt : Option Time) (hostEpoch : HostId → ℤ) (before : List (Bool × LifecycleEvent))
    (event : Bool × LifecycleEvent) :
    let start := admitCreate projectId sandboxId c expiresAt hostEpoch
    let s := run deployedStep start before
    (∀ a' ∈ (deployedStep s event).allocation, a'.status = .released →
      ∃ a ∈ s.allocation, a.toAllocation = a'.toAllocation ∧
        (a.status = .released ∨ (∃ o, event.2.reported = some o ∧ Confirms a o) ∨
          (∃ claim reason now, event.2 = .rejectUndispatchedCreate claim reason now) ∧
            answers deployedStep deployedStarts start before = [])) ∧
    (s.sandbox.observedState = .destroyed →
      s.sandbox.currentAllocationId = none ∧ s.sandbox.activeTransitionOperationId = none ∧
        ∀ a ∈ s.allocation, a.status = .released ∧ a.releasedAt ≠ none) := by
  intro start s
  have inv : Deployed c s := run_invariant deployedStep_keeps admitCreate_deployed
  have next : Deployed c (deployedStep s event) := deployedStep_keeps s event inv
  refine ⟨fun a' stored released => ?_, fun gone => ?_⟩
  · have gone : a'.releasedAt ≠ none := (next.1.allocation a' stored).status.mp released
    obtain keeps | places | ⟨a, releases, way⟩ := @lifecycleStep_place event.1 c s event.2 inv.1 inv.2
    · obtain ⟨a, held, identity, same⟩ := SameRelease.before keeps.allocation a' stored
      rw [same] at gone
      exact ⟨a, held, identity.symm, .inl ((inv.1.allocation a held).status.mpr gone)⟩
    · obtain ⟨placed, made, free, _⟩ := places.placed
      have same : placed = a' := Option.some.inj (made.symm.trans stored)
      rw [← same] at gone
      exact absurd free gone
    · obtain ⟨freed, made, identity, _⟩ := releases.released
      have same : freed = a' := Option.some.inj (made.symm.trans stored)
      rw [same] at identity
      refine ⟨a, releases.held, identity.symm, .inr ?_⟩
      generalize event.2 = carried at way
      cases way with
      | confirmed reported confirms => exact .inl ⟨_, reported, confirms⟩
      | rejected found create undispatched =>
        exact .inr ⟨⟨_, _, _, rfl⟩, rejected_unstarted found create undispatched⟩
  · have none := inv.2.destroyed gone
    refine ⟨none, inv.1.destroyed gone, fun a held => ?_⟩
    have released : a.releasedAt ≠ Option.none := by
      intro free
      have current := inv.2.current a held free
      rw [none] at current
      cases current
    exact ⟨(inv.1.allocation a held).status.mpr released, released⟩

end Place
end HudsonSandbox.Store
