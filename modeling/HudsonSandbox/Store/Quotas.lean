import HudsonSandbox.Store.Fleet
import HudsonSandbox.Store.Retirable

/-!
# Capacity, quotas and serials

A placement is the only transaction that adds to what a host or a project holds, and it adds no
more than is free. Every other transaction on a sandbox carries its allocation along: it keeps the
reservation, or releases it for good.
-/

namespace HudsonSandbox.Store
open Checked LiveOutput Supervisor AllocationAuthority Run

/-! ### One sandbox -/

/-- The same reservation; a release is final. -/
def Retains (a a' : AllocationRow) : Prop :=
  a'.toAllocation = a.toAllocation ∧ (a.releasedAt ≠ none → a'.releasedAt ≠ none)

structure Carries (s s' : Lifecycle) : Prop where
  id : s'.sandbox.id = s.sandbox.id
  allocation : Option.Rel Retains s.allocation s'.allocation
  current : ∀ a ∈ s'.allocation, a.releasedAt = none →
    s'.sandbox.currentAllocationId = s.sandbox.currentAllocationId
  permit : s'.permit = s.permit
  hostEpoch : s'.hostEpoch = s.hostEpoch

section Carries
variable {allowSimulated : Bool} {c : OperationId} {s s' next : Lifecycle} {a a' : AllocationRow}
  {claim : Claim} {now : Time}

theorem retains_refl {held : Option AllocationRow} : Option.Rel Retains held held := by
  cases held with
  | none => exact .none
  | some a => exact .some ⟨rfl, fun gone => gone⟩

/-- What holds between the two reservations outlasts a further write of the later one. -/
theorem Retains.of_rel {R : AllocationRow → AllocationRow → Prop} {write : AllocationRow → AllocationRow}
    (implied : ∀ a a', R a a' → Retains a (write a')) {held held' : Option AllocationRow}
    (related : Option.Rel R held held') : Option.Rel Retains held (held'.map write) := by
  cases related with
  | none => exact .none
  | some h => exact .some (implied _ _ h)

theorem Carries.of_touch (touch : Touch s s') (hostEpoch : s'.hostEpoch = s.hostEpoch) : Carries s s' := by
  refine ⟨touch.sandbox.id, ?_, fun _ _ _ => touch.sandbox.current, touch.permit, hostEpoch⟩
  rw [← Option.map_id' (x := s'.allocation)]
  refine Retains.of_rel (fun a a' same => ⟨same.identity, fun gone => ?_⟩) touch.allocation
  rw [same.releasedAt]
  exact gone

/-- The reservation itself is not written. -/
theorem Carries.of_same (id : s'.sandbox.id = s.sandbox.id) (allocation : s'.allocation = s.allocation)
    (current : s'.sandbox.currentAllocationId = s.sandbox.currentAllocationId)
    (permit : s'.permit = s.permit) (hostEpoch : s'.hostEpoch = s.hostEpoch) : Carries s s' := by
  refine ⟨id, ?_, fun _ _ _ => current, permit, hostEpoch⟩
  rw [allocation]
  exact retains_refl

theorem Carries.refl : Carries s s := .of_same rfl rfl rfl rfl rfl

/-- A transaction that wrote only the maintenance columns of the allocation. -/
theorem Carries.of_maintained (held : s.allocation = some a) (allocation : s'.allocation = some a')
    (retains : Retains a a') (id : s'.sandbox.id = s.sandbox.id)
    (current : s'.sandbox.currentAllocationId = s.sandbox.currentAllocationId)
    (permit : s'.permit = s.permit) (hostEpoch : s'.hostEpoch = s.hostEpoch) : Carries s s' := by
  refine ⟨id, ?_, fun _ _ _ => current, permit, hostEpoch⟩
  rw [held, allocation]
  exact .some retains

/-- The allocation is released with the transaction. -/
theorem Carries.of_release (held : s.allocation = some a) (allocation : s'.allocation = some a')
    (identity : a'.toAllocation = a.toAllocation) (released : a'.releasedAt ≠ none)
    (id : s'.sandbox.id = s.sandbox.id) (permit : s'.permit = s.permit)
    (hostEpoch : s'.hostEpoch = s.hostEpoch) : Carries s s' := by
  refine ⟨id, ?_, fun b stored free => ?_, permit, hostEpoch⟩
  · rw [held, allocation]
    exact .some ⟨identity, fun _ => released⟩
  · rw [allocation] at stored
    cases stored
    exact absurd free released

theorem updateLifecycleClaim_epoch {id : OperationId} {allowed : LifecycleOperation → Prop}
    [DecidablePred allowed] {change : Operation → Operation}
    (h : updateLifecycleClaim s id allowed change = .ok s') : s'.hostEpoch = s.hostEpoch := by
  unfold updateLifecycleClaim at h
  iterate 2 obtain ⟨_, _, h⟩ := bind_ok.mp h
  rw [← pure_ok.mp h]

theorem prepareCreateDispatch_carries {checks : DispatchChecks} {action : CreateAction}
    (h : prepareCreateDispatch s claim checks now = .ok (s', action)) : Carries s s' := by
  refine .of_touch (prepareCreateDispatch_touch h) ?_
  unfold prepareCreateDispatch at h
  obtain ⟨_, _, h⟩ := bind_ok.mp h
  split at h
  · cases pure_ok.mp h
    rfl
  · iterate 6 obtain ⟨_, _, h⟩ := bind_ok.mp h
    cases pure_ok.mp h
    rfl

theorem recordCreateUnknown_carries (h : recordCreateUnknown s claim now = .ok s') : Carries s s' := by
  unfold recordCreateUnknown at h
  obtain ⟨_, _, h⟩ := bind_ok.mp h
  rw [← pure_ok.mp h]
  exact .of_same rfl rfl rfl rfl rfl

theorem recordDestroyUnknown_carries (h : recordDestroyUnknown s claim now = .ok s') : Carries s s' := by
  unfold recordDestroyUnknown at h
  obtain ⟨_, _, h⟩ := bind_ok.mp h
  rw [← pure_ok.mp h]
  exact .of_same rfl rfl rfl rfl rfl

theorem recordPreviousUnknown_carries {request : PreviousAllocationRequest}
    (h : recordPreviousUnknown s claim request now = .ok s') : Carries s s' := by
  unfold recordPreviousUnknown at h
  iterate 2 obtain ⟨_, _, h⟩ := bind_ok.mp h
  rw [← pure_ok.mp h]
  exact .of_same rfl rfl rfl rfl rfl

theorem recordCreateObservation_carries {observation : Observation}
    (h : recordCreateObservation s claim observation allowSimulated now = .ok s') : Carries s s' := by
  unfold recordCreateObservation at h
  obtain ⟨_, _, h⟩ := bind_ok.mp h
  obtain ⟨ctx, found, h⟩ := bind_ok.mp h
  have held := (contextAtEpoch_ok found).allocation
  iterate 4 obtain ⟨_, _, h⟩ := bind_ok.mp h
  split at h
  · obtain ⟨_, _, h⟩ := bind_ok.mp h
    rw [← pure_ok.mp h]
    exact .of_maintained held rfl ⟨rfl, fun gone => gone⟩ rfl rfl rfl rfl
  · rw [← pure_ok.mp h]
    exact .of_release held rfl rfl (Option.some_ne_none now) rfl rfl rfl

theorem rejectUndispatchedCreate_carries {reason : CreateRejection}
    (h : rejectUndispatchedCreate s claim reason now = .ok s') : Carries s s' := by
  unfold rejectUndispatchedCreate at h
  iterate 4 obtain ⟨_, _, h⟩ := bind_ok.mp h
  obtain ⟨allocation, freed, h⟩ := bind_ok.mp h
  rw [← pure_ok.mp h]
  unfold rejectedAllocation at freed
  cases current : s.sandbox.currentAllocationId with
  | none =>
    rw [current] at freed
    cases freed
    exact .of_same rfl rfl current.symm rfl rfl
  | some id =>
    rw [current] at freed
    obtain ⟨a, unreleased, freed⟩ := bind_ok.mp freed
    obtain ⟨_, _, freed⟩ := bind_ok.mp freed
    cases pure_ok.mp freed
    exact .of_release (unreleased_eq (okOr_ok.mp unreleased)).1 rfl rfl (Option.some_ne_none now) rfl rfl rfl

theorem admitDestroy_carries {id : OperationId} {authorized : Bool} {admission : DestroyAdmission}
    (h : admitDestroy s id authorized now = .ok (s', admission)) : Carries s s' := by
  unfold admitDestroy at h
  split at h
  · cases h
    exact .refl
  · split at h
    · cases h
      exact .refl
    · iterate 2 obtain ⟨_, _, h⟩ := bind_ok.mp h
      cases pure_ok.mp h
      have sandbox : (s.admitted id now).sandbox.id = s.sandbox.id ∧
          (s.admitted id now).sandbox.currentAllocationId = s.sandbox.currentAllocationId := by
        unfold Lifecycle.admitted
        dsimp only
        split <;> exact ⟨rfl, rfl⟩
      exact .of_same sandbox.1 rfl sandbox.2 rfl rfl

theorem prepareDestroy_carries {retryStop : Bool} {action : DestroyAction}
    (h : prepareDestroy s claim retryStop now = .ok (s', action)) : Carries s s' := by
  unfold prepareDestroy at h
  obtain ⟨ctx, found, h⟩ := bind_ok.mp h
  have held := (contextAtEpoch_ok found).allocation
  iterate 2 obtain ⟨_, _, h⟩ := bind_ok.mp h
  cases pure_ok.mp h
  refine .of_maintained held rfl ?_ rfl rfl rfl rfl
  split
  · exact ⟨rfl, fun gone => gone⟩
  · exact ⟨rfl, fun gone => gone⟩

theorem recordDestroyObservation_carries {observation : Observation}
    (h : recordDestroyObservation s claim observation allowSimulated now = .ok s') : Carries s s' := by
  unfold recordDestroyObservation at h
  obtain ⟨_, _, h⟩ := bind_ok.mp h
  obtain ⟨ctx, found, h⟩ := bind_ok.mp h
  have held := (contextAtEpoch_ok found).allocation
  iterate 2 obtain ⟨_, _, h⟩ := bind_ok.mp h
  rw [← pure_ok.mp h]
  exact .of_release held rfl rfl (Option.some_ne_none now) rfl rfl rfl

theorem preparePreviousAllocation_carries {host : HostId} {reportingEpoch : ℤ}
    {action : Option PreviousAction}
    (h : preparePreviousAllocation s claim host reportingEpoch now = .ok (s', action)) : Carries s s' := by
  unfold preparePreviousAllocation at h
  obtain ⟨_, _, h⟩ := bind_ok.mp h
  split at h
  · cases pure_ok.mp h
    exact .refl
  · iterate 3 obtain ⟨_, _, h⟩ := bind_ok.mp h
    split at h
    · cases pure_ok.mp h
      exact .refl
    · unfold reconcilePrevious at h
      obtain ⟨_, _, h⟩ := bind_ok.mp h
      cases pure_ok.mp h
      exact .of_same rfl rfl rfl rfl rfl

theorem recordPreviousRelease_carries {observation : PreviousAllocationObservation}
    (h : recordPreviousRelease s claim observation allowSimulated now = .ok s') : Carries s s' := by
  unfold recordPreviousRelease at h
  iterate 3 obtain ⟨_, _, h⟩ := bind_ok.mp h
  obtain ⟨ctx, found, h⟩ := bind_ok.mp h
  have held := (previousContext_ok found).1.allocation
  iterate 3 obtain ⟨_, _, h⟩ := bind_ok.mp h
  rw [← pure_ok.mp h]
  exact .of_release held rfl rfl (Option.some_ne_none now) rfl rfl rfl

theorem cleanup_carries {id : OperationId} (h : cleanup s id now = .ok s') : Carries s s' := by
  rw [(cleanup_ok h).2]
  exact .of_same rfl rfl rfl rfl rfl

theorem prepareLease_carries {claim : AllocationClaim} {id : OperationId} {projectActive : Bool}
    {action : LeaseAction} (h : prepareLease s claim id projectActive now = .ok (s', action)) :
    Carries s s' := by
  unfold prepareLease at h
  obtain ⟨ctx, found, h⟩ := bind_ok.mp h
  have held := (leaseContext_ok found).1
  dsimp only at h
  split at h
  · obtain ⟨next, admitted, h⟩ := bind_ok.mp h
    obtain ⟨_, rfl⟩ := cleanup_ok admitted
    cases pure_ok.mp h
    exact .of_maintained held rfl ⟨rfl, fun gone => gone⟩ rfl rfl rfl rfl
  · split at h
    · cases pure_ok.mp h
      exact .refl
    · split at h
      · cases pure_ok.mp h
        exact .refl
      · cases pure_ok.mp h
        exact .of_maintained held rfl ⟨rfl, fun gone => gone⟩ rfl rfl rfl rfl

theorem leaseObserved_carries {ctx : LeaseContext} {id : OperationId} {observation : LeaseObservation}
    {projectActive : Bool} (held : s.allocation = some ctx.allocation)
    (h : leaseObserved s ctx id observation projectActive now = .ok s') : Carries s s' := by
  unfold leaseObserved at h
  split at h
  · exact cleanup_carries h
  · exact cleanup_carries h
  · unfold leaseReady at h
    iterate 3 obtain ⟨_, _, h⟩ := bind_ok.mp h
    split at h
    · exact cleanup_carries h
    · rw [← pure_ok.mp h]
      exact .of_maintained held rfl ⟨rfl, fun gone => gone⟩ rfl rfl rfl rfl
  · cases h

theorem recordLeaseObservation_carries {claim : AllocationClaim} {id : OperationId}
    {observation : LeaseObservation} {projectActive : Bool}
    (h : recordLeaseObservation s claim id observation projectActive allowSimulated now = .ok s') :
    Carries s s' := by
  unfold recordLeaseObservation at h
  obtain ⟨_, _, h⟩ := bind_ok.mp h
  obtain ⟨ctx, found, h⟩ := bind_ok.mp h
  iterate 2 obtain ⟨_, _, h⟩ := bind_ok.mp h
  obtain ⟨next, observed, h⟩ := bind_ok.mp h
  obtain ⟨_, _, h⟩ := bind_ok.mp h
  rw [← pure_ok.mp h]
  have carried := leaseObserved_carries (leaseContext_ok found).1 observed
  -- the maintenance lease ends on whatever the observation left
  refine ⟨carried.id, ?_, ?_, carried.permit, carried.hostEpoch⟩
  · exact Retains.of_rel (fun _ _ retains => retains) carried.allocation
  · intro a stored free
    obtain ⟨b, held, rfl⟩ := Option.map_eq_some_iff.mp stored
    exact carried.current b held free

theorem compactLifecycle_carries {id : OperationId} (h : compactLifecycle s id = .ok s') : Carries s s' := by
  unfold compactLifecycle at h
  iterate 2 obtain ⟨_, _, h⟩ := bind_ok.mp h
  rw [← pure_ok.mp h]
  exact .of_same rfl rfl rfl rfl rfl

theorem lifecycleStep_carries (event : LifecycleEvent) (own : Fleet.Local event) :
    Carries s (lifecycleStep allowSimulated s event) := by
  cases event with
  | claimLifecycle id lease now =>
    exact commit_keeps .refl fun _ h => .of_touch (claimLifecycle_touch h) (updateLifecycleClaim_epoch h)
  | renewLifecycle claim lease now =>
    exact commit_keeps .refl fun _ h => .of_touch (renewLifecycle_touch h) (updateLifecycleClaim_epoch h)
  | deferLifecycle claim delay now =>
    exact commit_keeps .refl fun _ h => .of_touch (deferLifecycle_touch h) (updateLifecycleClaim_epoch h)
  | reserveCreate claim id host expectedEpoch checks now => exact own.elim
  | prepareCreateDispatch claim checks now =>
    refine commit_keeps .refl fun _ h => ?_
    obtain ⟨_, ran⟩ := map_fst_ok h
    exact prepareCreateDispatch_carries ran
  | recordCreateUnknown claim now => exact commit_keeps .refl fun _ => recordCreateUnknown_carries
  | recordCreateObservation claim observation now =>
    exact commit_keeps .refl fun _ => recordCreateObservation_carries
  | rejectUndispatchedCreate claim reason now =>
    exact commit_keeps .refl fun _ => rejectUndispatchedCreate_carries
  | admitDestroy id authorized now =>
    refine commit_keeps .refl fun _ h => ?_
    obtain ⟨_, ran⟩ := map_fst_ok h
    exact admitDestroy_carries ran
  | prepareDestroy claim retryStop now =>
    refine commit_keeps .refl fun _ h => ?_
    obtain ⟨_, ran⟩ := map_fst_ok h
    exact prepareDestroy_carries ran
  | recordDestroyUnknown claim now => exact commit_keeps .refl fun _ => recordDestroyUnknown_carries
  | recordDestroyObservation claim observation now =>
    exact commit_keeps .refl fun _ => recordDestroyObservation_carries
  | preparePreviousAllocation claim host reportingEpoch now =>
    refine commit_keeps .refl fun _ h => ?_
    obtain ⟨_, ran⟩ := map_fst_ok h
    exact preparePreviousAllocation_carries ran
  | recordPreviousUnknown claim request now =>
    exact commit_keeps .refl fun _ => recordPreviousUnknown_carries
  | recordPreviousRelease claim observation now =>
    exact commit_keeps .refl fun _ => recordPreviousRelease_carries
  | claimAllocation host epoch lease now =>
    refine commit_keeps .refl fun _ h => .of_touch (claimAllocation_touch h) ?_
    unfold claimAllocation at h
    iterate 3 obtain ⟨_, _, h⟩ := bind_ok.mp h
    rw [← pure_ok.mp h]
  | prepareLease claim operation projectActive now =>
    refine commit_keeps .refl fun _ h => ?_
    obtain ⟨_, ran⟩ := map_fst_ok h
    exact prepareLease_carries ran
  | deferAllocation claim now =>
    refine commit_keeps .refl fun _ h => .of_touch (deferAllocation_touch h) ?_
    unfold deferAllocation at h
    iterate 2 obtain ⟨_, _, h⟩ := bind_ok.mp h
    rw [← pure_ok.mp h]
  | recordLeaseUnknown claim now =>
    refine commit_keeps .refl fun _ h => .of_touch (recordLeaseUnknown_touch h) ?_
    unfold recordLeaseUnknown at h
    obtain ⟨_, _, h⟩ := bind_ok.mp h
    rw [← pure_ok.mp h]
  | recordLeaseObservation claim operation observation projectActive now =>
    exact commit_keeps .refl fun _ => recordLeaseObservation_carries
  | markHostRuntimeUnknown host epoch =>
    refine commit_keeps .refl fun _ h => .of_touch (markHostRuntimeUnknown_touch h) ?_
    unfold markHostRuntimeUnknown at h
    iterate 2 obtain ⟨_, _, h⟩ := bind_ok.mp h
    rw [← pure_ok.mp h]
  | markPreviousEpochUnknown host epoch =>
    refine commit_keeps .refl fun _ h => .of_touch (markPreviousEpochUnknown_touch h) ?_
    unfold markPreviousEpochUnknown at h
    iterate 2 obtain ⟨_, _, h⟩ := bind_ok.mp h
    rw [← pure_ok.mp h]
  | compactLifecycle id => exact commit_keeps .refl fun _ => compactLifecycle_carries
  | registerHost host epoch => exact own.elim

end Carries

/-! ### The tables -/

/-- What no statement writes in a row of `allocations`. -/
def PlacedRow.identity (a : PlacedRow) : Allocation × GuestSize := (a.toAllocation, a.size)

/-- The keys and references of the schema, with a sandbox placed at most once. -/
structure Fleet.Keys (f : Fleet) : Prop where
  hosts : (f.hosts.map (·.id)).Nodup
  projects : (f.projects.map (·.id)).Nodup
  tenants : (f.tenants.map (·.sandbox.id)).Nodup
  allocations : (f.allocations.map (·.id)).Nodup
  placedOnce : (f.allocations.map (·.sandboxId)).Nodup
  host : ∀ a ∈ f.allocations, a.hostId ∈ f.hosts.map (·.id)
  project : ∀ a ∈ f.allocations, a.projectId ∈ f.projects.map (·.id)
  tenant : ∀ a ∈ f.allocations, a.sandboxId ∈ f.tenants.map (·.sandbox.id)
  size : ∀ a ∈ f.allocations, a.size.Positive
  permit : ∀ p ∈ f.permits, p.host ∈ f.hosts.map (·.id) ∧ p.sandbox ∈ f.allocations.map (·.sandboxId)
  issued : ∀ a ∈ f.allocations, ∃ p ∈ f.permits, p.allocation = a.id ∧ p.host = a.hostId

structure FleetInv (allowSimulated : Bool) (f : Fleet) : Prop extends f.Keys where
  views : ∀ t ∈ f.tenants, ∃ c, LifecycleInv False allowSimulated c (f.view t)
  current : ∀ a ∈ f.allocations, a.releasedAt = none → ∀ t ∈ f.tenants,
    t.sandbox.id = a.sandboxId → t.sandbox.currentAllocationId = some a.id
  capacity : ∀ host ∈ f.hosts, (f.hostUsage host.id).toGuestSize.Within host.capacity
  quota : ∀ project ∈ f.projects, (f.projectUsage project.id).Within project.limits.quota
  serials : ∀ host ∈ f.hosts, ((f.permits.filter fun p => p.host = host.id).map fun p => p.serial) =
    List.range' 1 host.lastAllocationSerial

section Tables
variable {allowSimulated : Bool} {f f' : Fleet} {t : Tenant} {next : Lifecycle}

theorem GuestSize.Within.trans {x y z : GuestSize} (xy : x.Within y) (yz : y.Within z) : x.Within z :=
  ⟨xy.1.trans yz.1, xy.2.1.trans yz.2.1, xy.2.2.trans yz.2.2⟩

theorem Usage.Within.trans {x y z : Usage} (xy : x.Within y) (yz : y.Within z) : x.Within z :=
  ⟨xy.1.trans yz.1, xy.2.trans yz.2⟩

/-- Keys and references only see the columns that are never written. -/
theorem Fleet.Keys.congr (keys : f.Keys) (hosts : f'.hosts.map (·.id) = f.hosts.map (·.id))
    (projects : f'.projects.map (·.id) = f.projects.map (·.id))
    (tenants : f'.tenants.map (·.sandbox.id) = f.tenants.map (·.sandbox.id))
    (allocations : f'.allocations.map PlacedRow.identity = f.allocations.map PlacedRow.identity)
    (permits : f'.permits = f.permits) : f'.Keys := by
  have ids : f'.allocations.map (·.id) = f.allocations.map (·.id) := by
    have column := congrArg (List.map fun i => i.1.id) allocations
    rw [List.map_map, List.map_map] at column
    exact column
  have sandboxes : f'.allocations.map (·.sandboxId) = f.allocations.map (·.sandboxId) := by
    have column := congrArg (List.map fun i => i.1.sandboxId) allocations
    rw [List.map_map, List.map_map] at column
    exact column
  have row : ∀ a ∈ f'.allocations, ∃ b ∈ f.allocations, b.toAllocation = a.toAllocation ∧ b.size = a.size := by
    intro a held
    have mem : a.identity ∈ f'.allocations.map PlacedRow.identity := List.mem_map_of_mem held
    rw [allocations] at mem
    obtain ⟨b, stored, same⟩ := List.mem_map.mp mem
    exact ⟨b, stored, congrArg Prod.fst same, congrArg Prod.snd same⟩
  refine ⟨hosts ▸ keys.hosts, projects ▸ keys.projects, tenants ▸ keys.tenants, ids ▸ keys.allocations,
    sandboxes ▸ keys.placedOnce, ?_, ?_, ?_, ?_, ?_, ?_⟩
  · intro a held
    obtain ⟨b, stored, same, _⟩ := row a held
    rw [hosts, ← same]
    exact keys.host b stored
  · intro a held
    obtain ⟨b, stored, same, _⟩ := row a held
    rw [projects, ← same]
    exact keys.project b stored
  · intro a held
    obtain ⟨b, stored, same, _⟩ := row a held
    rw [tenants, ← same]
    exact keys.tenant b stored
  · intro a held
    obtain ⟨b, stored, _, size⟩ := row a held
    rw [← size]
    exact keys.size b stored
  · intro p held
    rw [hosts, sandboxes]
    exact keys.permit p (permits ▸ held)
  · intro a held
    obtain ⟨b, stored, same, _⟩ := row a held
    rw [permits, ← same]
    exact keys.issued b stored

theorem Fleet.Keys.same_id (keys : f.Keys) {a b : PlacedRow} (held : a ∈ f.allocations)
    (other : b ∈ f.allocations) (same : a.id = b.id) : a = b :=
  List.inj_on_of_nodup_map keys.allocations held other same

theorem Fleet.Keys.same_sandbox (keys : f.Keys) {a b : PlacedRow} (held : a ∈ f.allocations)
    (other : b ∈ f.allocations) (same : a.sandboxId = b.sandboxId) : a = b :=
  List.inj_on_of_nodup_map keys.placedOnce held other same

/-- Releases lower every sum, and nothing else changes one. -/
theorem Fleet.Keys.usage_le (keys : f.Keys) {own : PlacedRow → Prop} [DecidablePred own]
    {write : PlacedRow → PlacedRow} (rows : f'.allocations = f.allocations.map write)
    (identity : ∀ a, (write a).identity = a.identity)
    (final : ∀ a ∈ f.allocations, (write a).releasedAt = none → a.releasedAt = none)
    (owned : ∀ a, own (write a) → own a) : (f'.usage own).Within (f.usage own) := by
  have sum : ∀ weight : PlacedRow → ℤ, (∀ a ∈ f.allocations, 0 ≤ weight a) →
      (∀ a, weight (write a) = weight a) →
      Table.total (fun a => own a ∧ a.releasedAt = none) weight f'.allocations ≤
        Table.total (fun a => own a ∧ a.releasedAt = none) weight f.allocations := by
    intro weight positive keeps
    rw [rows]
    exact Table.total_map_le positive fun a held =>
      ⟨keeps a, fun still => ⟨owned a still.1, final a held still.2⟩⟩
  have size : ∀ a, (write a).size = a.size := fun a => congrArg Prod.snd (identity a)
  refine ⟨sum _ (fun _ _ => Int.one_nonneg) fun _ => rfl, sum _ ?_ ?_, sum _ ?_ ?_, sum _ ?_ ?_⟩
  · exact fun a held => (keys.size a held).1.le
  · exact fun a => congrArg GuestSize.vcpu (size a)
  · exact fun a held => (keys.size a held).2.1.le
  · exact fun a => congrArg GuestSize.memoryMib (size a)
  · exact fun a held => (keys.size a held).2.2.le
  · exact fun a => congrArg GuestSize.diskMib (size a)

/-- What a transaction on one sandbox writes to `allocations`: at most that sandbox's own row. -/
theorem Fleet.Keys.write_allocations (keys : f.Keys) (carries : Carries (f.view t) next) :
    ∃ write : PlacedRow → PlacedRow, (f.write t next).allocations = f.allocations.map write ∧
      (∀ a, (write a).identity = a.identity) ∧
      (∀ a ∈ f.allocations, a.sandboxId ≠ t.sandbox.id → write a = a) ∧
      ∀ a ∈ f.allocations, a.sandboxId = t.sandbox.id →
        next.allocation = some (write a).toAllocationRow ∧
          Retains a.toAllocationRow (write a).toAllocationRow := by
  have related := carries.allocation
  cases stored : Table.find (·.sandboxId) f.allocations t.sandbox.id with
  | none =>
    have before : (f.view t).allocation = none := by
      show (Table.find (·.sandboxId) f.allocations t.sandbox.id).map _ = none
      rw [stored]
      rfl
    rw [before] at related
    have after : next.allocation = none := by
      cases found : next.allocation with
      | none => rfl
      | some a => rw [found] at related; cases related
    have absent := Table.find_eq_none.mp stored
    refine ⟨id, ?_, fun _ => rfl, fun _ _ _ => rfl, fun a held own => ?_⟩
    · show next.allocation.elim f.allocations _ = f.allocations.map id
      rw [after, List.map_id]
      rfl
    · exact absurd (own ▸ List.mem_map_of_mem held) absent
  | some row =>
    have before : (f.view t).allocation = some row.toAllocationRow := by
      show (Table.find (·.sandboxId) f.allocations t.sandbox.id).map _ = _
      rw [stored]
      rfl
    have held : row ∈ f.allocations := Table.find_mem stored
    have owner : row.sandboxId = t.sandbox.id := by
      have key := Table.find_key stored
      exact key
    rw [before] at related
    cases found : next.allocation with
    | none => rw [found] at related; cases related
    | some a' =>
      rw [found] at related
      have retains : Retains row.toAllocationRow a' := by
        cases related with
        | some h => exact h
      have key : a'.id = row.id := congrArg Allocation.id retains.1
      refine ⟨fun a => if a.id = a'.id then a.write a' else a, ?_, fun a => ?_, fun a other apart => ?_,
        fun a other own => ?_⟩
      · show next.allocation.elim f.allocations _ = _
        rw [found]
        rfl
      · show PlacedRow.identity (if a.id = a'.id then a.write a' else a) = a.identity
        split <;> rfl
      · refine if_neg fun same => apart ?_
        rw [keys.same_id other held (same.trans key), owner]
      · have same : a = row := keys.same_sandbox other held (own.trans owner.symm)
        subst same
        have wrote : (a.write a').toAllocationRow = a' := by
          show { a' with toAllocation := a.toAllocation } = a'
          rw [← retains.1]
        have own : (if a.id = a'.id then a.write a' else a) = a.write a' := if_pos key.symm
        show some a' = some (if a.id = a'.id then a.write a' else a).toAllocationRow ∧
          Retains a.toAllocationRow (if a.id = a'.id then a.write a' else a).toAllocationRow
        rw [own, wrote]
        exact ⟨rfl, retains⟩

/-- A transaction on one sandbox turns that sandbox's rows into the ones it leaves. -/
theorem Fleet.Keys.view_write (keys : f.Keys) (carries : Carries (f.view t) next) :
    (f.write t next).view (t.write next) = next := by
  obtain ⟨write, rows, identity, _, mine⟩ := keys.write_allocations carries
  have sandbox : { next.sandbox with id := t.sandbox.id } = next.sandbox := by
    rw [← show next.sandbox.id = t.sandbox.id from carries.id]
  have allocation : (Table.find (·.sandboxId) (f.write t next).allocations t.sandbox.id).map
      (·.toAllocationRow) = next.allocation := by
    rw [rows, Table.find_map fun a => congrArg (fun i => i.1.sandboxId) (identity a)]
    have related := carries.allocation
    unfold Fleet.view at related
    cases stored : Table.find (·.sandboxId) f.allocations t.sandbox.id with
    | none =>
      rw [stored] at related
      cases found : next.allocation with
      | none => rfl
      | some a => rw [found] at related; cases related
    | some row =>
      have owner := Table.find_key stored
      exact (mine row (Table.find_mem stored) owner).1.symm
  have permit : Table.find (·.sandbox) (f.write t next).permits t.sandbox.id = next.permit :=
    carries.permit.symm
  have epochs : (f.write t next).hostEpoch = next.hostEpoch := carries.hostEpoch.symm
  show (⟨next.operations, { next.sandbox with id := t.sandbox.id },
    (Table.find (·.sandboxId) (f.write t next).allocations t.sandbox.id).map (·.toAllocationRow),
    Table.find (·.sandbox) (f.write t next).permits t.sandbox.id, _⟩ : Lifecycle) = next
  rw [sandbox, allocation, permit, epochs]

/-- … and leaves every other sandbox's rows as they were. -/
theorem Fleet.Keys.view_write_other (keys : f.Keys) (carries : Carries (f.view t) next) {other : Tenant}
    (apart : other.sandbox.id ≠ t.sandbox.id) : (f.write t next).view other = f.view other := by
  obtain ⟨write, rows, identity, others, _⟩ := keys.write_allocations carries
  have allocation : (Table.find (·.sandboxId) (f.write t next).allocations other.sandbox.id).map
      (·.toAllocationRow) = (Table.find (·.sandboxId) f.allocations other.sandbox.id).map
      (·.toAllocationRow) := by
    rw [rows, Table.find_map fun a => congrArg (fun i => i.1.sandboxId) (identity a)]
    cases stored : Table.find (·.sandboxId) f.allocations other.sandbox.id with
    | none => rfl
    | some row =>
      have owner := Table.find_key stored
      have kept : write row = row := others row (Table.find_mem stored) fun same => apart (owner.symm.trans same)
      show some (write row).toAllocationRow = some row.toAllocationRow
      rw [kept]
  show (⟨_, _, _, _, _⟩ : Lifecycle) = ⟨_, _, _, _, _⟩
  rw [allocation]
  rfl

theorem FleetInv.transact {sandbox : SandboxId} {event : LifecycleEvent} (inv : FleetInv allowSimulated f)
    (own : Fleet.Local event) (h : f.transact allowSimulated sandbox event = .ok f') :
    FleetInv allowSimulated f' := by
  unfold Fleet.transact at h
  obtain ⟨t, found, h⟩ := bind_ok.mp h
  obtain ⟨_, _, h⟩ := bind_ok.mp h
  rw [← pure_ok.mp h]
  have stored : t ∈ f.tenants := Table.find_mem (okOr_ok.mp found)
  obtain ⟨c, before⟩ := inv.views t stored
  have after := lifecycleStep_inv (f.view t) event before False.elim
  have carries : Carries (f.view t) (lifecycleStep allowSimulated (f.view t) event) :=
    lifecycleStep_carries event own
  generalize lifecycleStep allowSimulated (f.view t) event = next at after carries
  have keys := inv.toKeys
  obtain ⟨write, rows, identity, others, mine⟩ := keys.write_allocations carries
  have final : ∀ a ∈ f.allocations, (write a).releasedAt = none → a.releasedAt = none := by
    intro a held free
    by_cases own : a.sandboxId = t.sandbox.id
    · by_contra gone
      exact (mine a held own).2.2 gone free
    · rwa [others a held own] at free
  have tenants : ∀ t' ∈ (f.write t next).tenants,
      t' = t.write next ∨ t' ∈ f.tenants ∧ t'.sandbox.id ≠ t.sandbox.id := by
    intro t' held
    obtain ⟨old, member, same⟩ := Table.mem_update.mp held
    by_cases hit : old.sandbox.id = t.sandbox.id
    · have only : old = t := List.inj_on_of_nodup_map keys.tenants member stored hit
      rw [if_pos hit, only] at same
      exact .inl same.symm
    · rw [if_neg hit] at same
      exact .inr (same ▸ ⟨member, hit⟩)
  refine ⟨keys.congr rfl rfl (Table.map_update fun _ => rfl) ?_ rfl, ?_, ?_, ?_, ?_, inv.serials⟩
  · rw [rows, List.map_map]
    exact List.map_congr_left fun a _ => identity a
  · intro t' held
    rcases tenants t' held with rfl | ⟨member, apart⟩
    · rw [keys.view_write carries]
      exact ⟨c, after⟩
    · rw [keys.view_write_other carries apart]
      exact inv.views t' member
  · intro a held free t' member same
    rw [rows] at held
    obtain ⟨b, kept, rfl⟩ := List.mem_map.mp held
    have id : (write b).id = b.id := congrArg (fun i => i.1.id) (identity b)
    have owner : (write b).sandboxId = b.sandboxId := congrArg (fun i => i.1.sandboxId) (identity b)
    rw [owner] at same
    rw [id]
    rcases tenants t' member with rfl | ⟨other, apart⟩
    · have current := carries.current _ (mine b kept same.symm).1 free
      exact current.trans (inv.current b kept (final b kept free) t stored same)
    · exact inv.current b kept (final b kept free) t' other same
  · intro host member
    have sums : ((f.write t next).hostUsage host.id).Within (f.hostUsage host.id) :=
      keys.usage_le rows identity final fun a owned =>
        (congrArg (fun i => i.1.hostId) (identity a)).symm.trans owned
    exact sums.2.trans (inv.capacity host member)
  · intro project member
    have sums : ((f.write t next).projectUsage project.id).Within (f.projectUsage project.id) :=
      keys.usage_le rows identity final fun a owned =>
        (congrArg (fun i => i.1.projectId) (identity a)).symm.trans owned
    exact sums.trans (inv.quota project member)

/-! ### Placement -/

/-- What a host or project holds with one allocation more. -/
def Usage.add (usage : Usage) (size : GuestSize) : Usage where
  sandboxes := usage.sandboxes + 1
  vcpu := usage.vcpu + size.vcpu
  memoryMib := usage.memoryMib + size.memoryMib
  diskMib := usage.diskMib + size.diskMib

theorem reserveCreate_placed {s s' : Lifecycle} {claim : Claim} {id : AllocationId} {host : HostId}
    {epoch : ℤ} {checks : PlacementChecks} {now : Time} (free : s.sandbox.currentAllocationId = none)
    (h : reserveCreate s claim id host epoch checks now = .ok s') :
    ∃ op serial, s.op claim.operationId = some op ∧ s.sandbox.generation = 0 ∧
      checks.resources = true ∧ checks.quota = true ∧ checks.ready = true ∧ checks.capacity = true ∧
      checks.serial = some serial ∧ s' = s.place op claim id host epoch serial := by
  unfold reserveCreate at h
  obtain ⟨op, found, h⟩ := bind_ok.mp h
  obtain ⟨_, _, h⟩ := bind_ok.mp h
  obtain ⟨_, _, h⟩ := bind_ok.mp h
  rw [free] at h
  obtain ⟨_, first, h⟩ := bind_ok.mp h
  obtain ⟨_, resources, h⟩ := bind_ok.mp h
  obtain ⟨_, quota, h⟩ := bind_ok.mp h
  obtain ⟨_, ready, h⟩ := bind_ok.mp h
  obtain ⟨_, _, h⟩ := bind_ok.mp h
  obtain ⟨_, _, h⟩ := bind_ok.mp h
  obtain ⟨_, capacity, h⟩ := bind_ok.mp h
  obtain ⟨serial, given, h⟩ := bind_ok.mp h
  exact ⟨op, serial, okOr_ok.mp found, (ensure_ok.mp first).2.2.1, ensure_ok.mp resources, ensure_ok.mp quota,
    (ensure_ok.mp ready).1, ensure_ok.mp capacity, okOr_ok.mp given, (pure_ok.mp h).symm⟩

theorem quotaOf_ok {value : LimitValue} {default n : ℤ} (h : limit value default = .ok n) :
    quotaOf value default = n := by
  unfold quotaOf
  rw [h]

theorem quotaOf_nonneg {value : LimitValue} {default : ℤ} (positive : 0 ≤ default) : 0 ≤ quotaOf value default := by
  unfold quotaOf
  cases read : limit value default with
  | error _ => exact le_refl 0
  | ok n =>
    unfold limit at read
    split at read
    · cases read
      exact positive
    · have kept := (Option.filter_eq_some_iff.mp (okOr_ok.mp read)).2
      exact of_decide_eq_true kept

theorem Fleet.underQuota_ok {project : ProjectRow} {size : GuestSize}
    (h : f.underQuota project size = .ok ()) :
    ((f.projectUsage project.id).add size).Within project.limits.quota := by
  unfold Fleet.underQuota at h
  obtain ⟨sandboxes, first, h⟩ := bind_ok.mp h
  obtain ⟨_, count, h⟩ := bind_ok.mp h
  obtain ⟨vcpu, second, h⟩ := bind_ok.mp h
  obtain ⟨_, cpu, h⟩ := bind_ok.mp h
  obtain ⟨memory, third, h⟩ := bind_ok.mp h
  obtain ⟨_, mib, h⟩ := bind_ok.mp h
  obtain ⟨disk, fourth, last⟩ := bind_ok.mp h
  have count := ensure_ok.mp count
  have cpu := ensure_ok.mp cpu
  have mib := ensure_ok.mp mib
  have last := ensure_ok.mp last
  refine ⟨?_, ?_, ?_, ?_⟩
  · show (f.projectUsage project.id).sandboxes + 1 ≤ quotaOf project.limits.sandboxes 25
    rw [quotaOf_ok first]
    exact count
  · show (f.projectUsage project.id).vcpu + size.vcpu ≤ quotaOf project.limits.vcpu 100
    rw [quotaOf_ok second]
    omega
  · show (f.projectUsage project.id).memoryMib + size.memoryMib ≤ quotaOf project.limits.memoryMib 204800
    rw [quotaOf_ok third]
    omega
  · show (f.projectUsage project.id).diskMib + size.diskMib ≤ quotaOf project.limits.diskMib 1638400
    rw [quotaOf_ok fourth]
    omega

theorem Fleet.underCapacity_within {host : HostRow} {size : GuestSize} (under : f.UnderCapacity host size) :
    ((f.hostUsage host.id).add size).toGuestSize.Within host.capacity := by
  obtain ⟨cpu, memory, disk⟩ := under
  refine ⟨?_, ?_, ?_⟩
  · show (f.hostUsage host.id).vcpu + size.vcpu ≤ host.capacity.vcpu
    omega
  · show (f.hostUsage host.id).memoryMib + size.memoryMib ≤ host.capacity.memoryMib
    omega
  · show (f.hostUsage host.id).diskMib + size.diskMib ≤ host.capacity.diskMib
    omega

theorem Fleet.usage_insert {own : PlacedRow → Prop} [DecidablePred own] {a : PlacedRow}
    (rows : f'.allocations = f.allocations ++ [a]) (free : a.releasedAt = none) :
    f'.usage own = if own a then (f.usage own).add a.size else f.usage own := by
  have sum : ∀ weight : PlacedRow → ℤ,
      Table.total (fun a => own a ∧ a.releasedAt = none) weight f'.allocations =
        Table.total (fun a => own a ∧ a.releasedAt = none) weight f.allocations +
          if own a then weight a else 0 := by
    intro weight
    rw [rows, Table.total_append, Table.total_cons, Table.total_nil, add_zero]
    by_cases held : own a
    · rw [if_pos held, if_pos ⟨held, free⟩]
    · rw [if_neg held, if_neg fun both => held both.1]
  unfold Fleet.usage
  simp only [sum]
  by_cases held : own a
  · simp only [if_pos held]
    rfl
  · simp only [if_neg held, add_zero]

/-- Host rows may change as long as their epochs stay. -/
theorem Fleet.hostEpoch_eq {write : HostRow → HostRow} (rows : f'.hosts = f.hosts.map write)
    (id : ∀ row, (write row).id = row.id) (epoch : ∀ row, (write row).supervisorEpoch = row.supervisorEpoch) :
    f'.hostEpoch = f.hostEpoch := by
  funext host
  unfold Fleet.hostEpoch Fleet.host
  rw [rows, Table.find_map id, Option.map_map]
  congr 2
  funext row
  exact epoch row

/-- What a first placement found under its locks. -/
structure Placing (f : Fleet) (t : Tenant) (op : LifecycleOperation) (id : AllocationId)
    (project : ProjectRow) (host : HostRow) : Prop where
  stored : t ∈ f.tenants
  sandboxId : op.sandboxId = t.sandbox.id
  owner : project ∈ f.projects
  projectId : op.projectId = project.id
  located : host ∈ f.hosts
  unused : f.allocation id = none
  absent : Table.find (·.sandboxId) f.allocations t.sandbox.id = none
  unpermitted : Table.find (·.sandbox) f.permits t.sandbox.id = none
  size : t.size.Positive
  quota : ((f.projectUsage project.id).add t.size).Within project.limits.quota
  capacity : ((f.hostUsage host.id).add t.size).toGuestSize.Within host.capacity

theorem FleetInv.placing {sandbox : SandboxId} {claim : Claim} {id : AllocationId} {host : HostId}
    {expectedEpoch : ℤ} {facts : HostFacts} {now : Time} (inv : FleetInv allowSimulated f)
    (h : f.reserveCreate sandbox claim id host expectedEpoch facts now = .ok f') :
    f' = f ∨ ∃ t op project row, Placing f t op id project row ∧ row.id = host ∧
      (∃ c, LifecycleInv False allowSimulated c
        ((f.view t).place op claim id row.id expectedEpoch (row.lastAllocationSerial + 1))) ∧
      f' = f.place t row.id ((f.view t).place op claim id row.id expectedEpoch (row.lastAllocationSerial + 1)) := by
  unfold Fleet.reserveCreate at h
  obtain ⟨t, found, h⟩ := bind_ok.mp h
  obtain ⟨op, claimed, h⟩ := bind_ok.mp h
  obtain ⟨_, _, h⟩ := bind_ok.mp h
  obtain ⟨project, owner, h⟩ := bind_ok.mp h
  obtain ⟨next, reserved, h⟩ := bind_ok.mp h
  split at h
  case isFalse => exact .inl (pure_ok.mp h).symm
  case isTrue free =>
  obtain ⟨_, unused, h⟩ := bind_ok.mp h
  have stored : t ∈ f.tenants := Table.find_mem (okOr_ok.mp found)
  obtain ⟨c, before⟩ := inv.views t stored
  have after := reserveCreate_inv before reserved
  obtain ⟨again, serial, same, fresh, resources, quota, _, capacity, given, rfl⟩ :=
    reserveCreate_placed free reserved
  cases (okOr_ok.mp claimed).symm.trans same
  have rowInv := before.rows _ op (okOr_ok.mp claimed)
  have projectId : project.id = op.projectId := Table.find_key (okOr_ok.mp owner)
  obtain ⟨low, high, disk⟩ := (of_decide_eq_true resources).1
  obtain ⟨row, located, under⟩ := of_decide_eq_true capacity
  have hostId : row.id = host := Table.find_key located
  -- The sandbox was never placed, so its allocation and its permit are its first.
  have absent : Table.find (·.sandboxId) f.allocations t.sandbox.id = none :=
    Option.map_eq_none_iff.mp (before.placed fresh)
  have unpermitted : Table.find (·.sandbox) f.permits t.sandbox.id = none := by
    refine Table.find_eq_none.mpr fun held => ?_
    obtain ⟨p, issued, own⟩ := List.mem_map.mp held
    exact Table.find_eq_none.mp absent (own ▸ (inv.permit p issued).2)
  have next : serial = row.lastAllocationSerial + 1 := by
    have bound : HostRow.nextSerial row = some serial := by
      have given : (f.host host).bind HostRow.nextSerial = some serial := given
      rwa [located] at given
    unfold HostRow.nextSerial at bound
    split at bound
    · exact (Option.some.inj bound).symm
    · cases bound
  subst hostId next
  have positive : t.size.Positive := by
    refine ⟨?_, ?_, ?_⟩ <;> omega
  exact .inr ⟨t, op, project, row, ⟨stored, rowInv.sandboxId, Table.find_mem (okOr_ok.mp owner),
    projectId.symm, Table.find_mem located, ensure_ok.mp unused, absent, unpermitted, positive,
    Fleet.underQuota_ok (of_decide_eq_true quota), Fleet.underCapacity_within under⟩, rfl, ⟨c, after⟩,
    (pure_ok.mp h).symm⟩

section Placing
variable {op : LifecycleOperation} {id : AllocationId} {project : ProjectRow} {host : HostRow}
  {claim : Claim} {epoch : ℤ}

/-- The row that a placement inserts. -/
def Tenant.placed (t : Tenant) (op : LifecycleOperation) (id : AllocationId) (host : HostRow)
    (epoch : ℤ) : PlacedRow :=
  { placedAllocation op id host.id epoch with size := t.size }

/-- The fleet after the placement. -/
def Fleet.placed (f : Fleet) (t : Tenant) (op : LifecycleOperation) (claim : Claim) (id : AllocationId)
    (host : HostRow) (epoch : ℤ) : Fleet :=
  f.place t host.id ((f.view t).place op claim id host.id epoch (host.lastAllocationSerial + 1))

theorem Placing.keys (placing : Placing f t op id project host) (keys : f.Keys) :
    (f.placed t op claim id host epoch).Keys := by
  have hosts : (f.placed t op claim id host epoch).hosts.map (·.id) = f.hosts.map (·.id) :=
    Table.map_update fun _ => rfl
  have tenants : (f.placed t op claim id host epoch).tenants.map (·.sandbox.id) =
      f.tenants.map (·.sandbox.id) := Table.map_update fun _ => rfl
  have rows : (f.placed t op claim id host epoch).allocations =
      f.allocations ++ [t.placed op id host epoch] := rfl
  have permits : (f.placed t op claim id host epoch).permits =
      f.permits ++ [placedPermit op id host.id epoch (host.lastAllocationSerial + 1)] := rfl
  have own : op.sandboxId ∉ f.allocations.map (·.sandboxId) := by
    rw [placing.sandboxId]
    exact Table.find_eq_none.mp placing.absent
  refine ⟨hosts ▸ keys.hosts, keys.projects, tenants ▸ keys.tenants, ?_, ?_, ?_, ?_, ?_, ?_, ?_, ?_⟩
  · rw [rows, List.map_append]
    exact List.nodup_append.mpr ⟨keys.allocations, List.nodup_singleton _, by
      rintro other held _ mine rfl
      have same : other = id := List.mem_singleton.mp mine
      exact Table.find_eq_none.mp placing.unused (same ▸ held)⟩
  · rw [rows, List.map_append]
    exact List.nodup_append.mpr ⟨keys.placedOnce, List.nodup_singleton _, by
      rintro other held _ mine rfl
      have same : other = op.sandboxId := List.mem_singleton.mp mine
      exact own (same ▸ held)⟩
  · intro a held
    rw [hosts]
    rcases List.mem_append.mp (rows ▸ held) with old | new
    · exact keys.host a old
    · rw [List.mem_singleton.mp new]
      exact List.mem_map_of_mem placing.located
  · intro a held
    rcases List.mem_append.mp (rows ▸ held) with old | new
    · exact keys.project a old
    · rw [List.mem_singleton.mp new]
      show op.projectId ∈ f.projects.map (·.id)
      rw [placing.projectId]
      exact List.mem_map_of_mem placing.owner
  · intro a held
    rw [tenants]
    rcases List.mem_append.mp (rows ▸ held) with old | new
    · exact keys.tenant a old
    · rw [List.mem_singleton.mp new]
      show op.sandboxId ∈ f.tenants.map (·.sandbox.id)
      rw [placing.sandboxId]
      exact List.mem_map_of_mem placing.stored
  · intro a held
    rcases List.mem_append.mp (rows ▸ held) with old | new
    · exact keys.size a old
    · rw [List.mem_singleton.mp new]
      exact placing.size
  · intro p held
    rw [hosts, rows, List.map_append]
    rcases List.mem_append.mp (permits ▸ held) with old | new
    · exact ⟨(keys.permit p old).1, List.mem_append_left _ (keys.permit p old).2⟩
    · rw [List.mem_singleton.mp new]
      exact ⟨List.mem_map_of_mem placing.located, List.mem_append_right _ (List.mem_singleton_self _)⟩
  · intro a held
    rw [permits]
    rcases List.mem_append.mp (rows ▸ held) with old | new
    · obtain ⟨p, issued, same⟩ := keys.issued a old
      exact ⟨p, List.mem_append_left _ issued, same⟩
    · rw [List.mem_singleton.mp new]
      exact ⟨_, List.mem_append_right _ (List.mem_singleton_self _), rfl, rfl⟩

theorem placed_hostEpoch : (f.placed t op claim id host epoch).hostEpoch = f.hostEpoch :=
  Fleet.hostEpoch_eq rfl (fun _ => by split <;> rfl) fun _ => by split <;> rfl

/-- Each other sandbox is left as it was. -/
theorem Placing.view_other (placing : Placing f t op id project host) {other : Tenant}
    (apart : other.sandbox.id ≠ t.sandbox.id) :
    (f.placed t op claim id host epoch).view other = f.view other := by
  have differs : op.sandboxId ≠ other.sandbox.id := by
    rw [placing.sandboxId]
    exact apart.symm
  have allocation : Table.find (·.sandboxId) (f.allocations ++ [t.placed op id host epoch]) other.sandbox.id =
      Table.find (·.sandboxId) f.allocations other.sandbox.id := by
    refine (Table.find_insert ?_).trans (if_neg differs)
    exact (congrArg _ placing.sandboxId).trans placing.absent
  have permit : Table.find (·.sandbox)
      (f.permits ++ [placedPermit op id host.id epoch (host.lastAllocationSerial + 1)]) other.sandbox.id =
      Table.find (·.sandbox) f.permits other.sandbox.id := by
    refine (Table.find_insert ?_).trans (if_neg differs)
    exact (congrArg _ placing.sandboxId).trans placing.unpermitted
  show (⟨other.operations, other.sandbox,
    (Table.find (·.sandboxId) (f.allocations ++ [t.placed op id host epoch]) other.sandbox.id).map
      (·.toAllocationRow), Table.find (·.sandbox)
      (f.permits ++ [placedPermit op id host.id epoch (host.lastAllocationSerial + 1)]) other.sandbox.id,
    (f.placed t op claim id host epoch).hostEpoch⟩ : Lifecycle) = f.view other
  rw [allocation, permit, placed_hostEpoch]
  rfl

/-- The placed sandbox is left as placement wrote it. -/
theorem Placing.view_own (placing : Placing f t op id project host) :
    (f.placed t op claim id host epoch).view
        (t.write ((f.view t).place op claim id host.id epoch (host.lastAllocationSerial + 1))) =
      (f.view t).place op claim id host.id epoch (host.lastAllocationSerial + 1) := by
  have allocation : Table.find (·.sandboxId) (f.allocations ++ [t.placed op id host epoch]) t.sandbox.id =
      some (t.placed op id host epoch) := by
    refine (Table.find_insert ?_).trans (if_pos placing.sandboxId)
    exact (congrArg _ placing.sandboxId).trans placing.absent
  have permit : Table.find (·.sandbox)
      (f.permits ++ [placedPermit op id host.id epoch (host.lastAllocationSerial + 1)]) t.sandbox.id =
      some (placedPermit op id host.id epoch (host.lastAllocationSerial + 1)) := by
    refine (Table.find_insert ?_).trans (if_pos placing.sandboxId)
    exact (congrArg _ placing.sandboxId).trans placing.unpermitted
  show (⟨_, _, (Table.find (·.sandboxId) (f.allocations ++ [t.placed op id host epoch]) t.sandbox.id).map
      (·.toAllocationRow), Table.find (·.sandbox)
      (f.permits ++ [placedPermit op id host.id epoch (host.lastAllocationSerial + 1)]) t.sandbox.id,
    (f.placed t op claim id host epoch).hostEpoch⟩ : Lifecycle) = _
  rw [allocation, permit, placed_hostEpoch]
  rfl

theorem FleetInv.placed (inv : FleetInv allowSimulated f) (placing : Placing f t op id project host)
    (after : ∃ c, LifecycleInv False allowSimulated c
      ((f.view t).place op claim id host.id epoch (host.lastAllocationSerial + 1))) :
    FleetInv allowSimulated (f.placed t op claim id host epoch) := by
  have keys := inv.toKeys
  have rows : (f.placed t op claim id host epoch).allocations =
      f.allocations ++ [t.placed op id host epoch] := rfl
  have tenants : ∀ t' ∈ (f.placed t op claim id host epoch).tenants,
      t' = t.write ((f.view t).place op claim id host.id epoch (host.lastAllocationSerial + 1)) ∨
        t' ∈ f.tenants ∧ t'.sandbox.id ≠ t.sandbox.id := by
    intro t' held
    obtain ⟨old, member, same⟩ := Table.mem_update.mp held
    by_cases hit : old.sandbox.id = t.sandbox.id
    · have only : old = t := List.inj_on_of_nodup_map keys.tenants member placing.stored hit
      rw [if_pos hit, only] at same
      exact .inl same.symm
    · rw [if_neg hit] at same
      exact .inr (same ▸ ⟨member, hit⟩)
  refine ⟨placing.keys keys, ?_, ?_, ?_, ?_, ?_⟩
  · intro t' held
    rcases tenants t' held with rfl | ⟨member, apart⟩
    · rw [placing.view_own]
      exact after
    · rw [placing.view_other apart]
      exact inv.views t' member
  · intro a held free t' member same
    rcases List.mem_append.mp (rows ▸ held) with old | new
    · rcases tenants t' member with rfl | ⟨other, _⟩
      · exact absurd (same ▸ List.mem_map_of_mem old) (Table.find_eq_none.mp placing.absent)
      · exact inv.current a old free t' other same
    · rw [List.mem_singleton.mp new] at same ⊢
      rcases tenants t' member with rfl | ⟨_, apart⟩
      · rfl
      · exact absurd (same.trans placing.sandboxId) apart
  · intro row held
    obtain ⟨old, member, same⟩ := Table.mem_update.mp held
    have sums : (f.placed t op claim id host epoch).hostUsage old.id =
        if host.id = old.id then (f.hostUsage old.id).add t.size else f.hostUsage old.id :=
      Fleet.usage_insert rows rfl
    have own : row.id = old.id ∧ row.capacity = old.capacity := by
      rw [← same]
      split <;> exact ⟨rfl, rfl⟩
    rw [own.1, own.2, sums]
    by_cases hit : host.id = old.id
    · have only : old = host := List.inj_on_of_nodup_map keys.hosts member placing.located hit.symm
      rw [if_pos hit, only]
      exact placing.capacity
    · rw [if_neg hit]
      exact inv.capacity old member
  · intro row member
    have sums : (f.placed t op claim id host epoch).projectUsage row.id =
        if op.projectId = row.id then (f.projectUsage row.id).add t.size else f.projectUsage row.id :=
      Fleet.usage_insert rows rfl
    rw [sums]
    by_cases hit : op.projectId = row.id
    · have only : row = project := List.inj_on_of_nodup_map keys.projects member placing.owner
        (hit.symm.trans placing.projectId)
      rw [if_pos hit, only]
      exact placing.quota
    · rw [if_neg hit]
      exact inv.quota row member
  · intro row held
    obtain ⟨old, member, same⟩ := Table.mem_update.mp held
    show ((f.permits ++ [placedPermit op id host.id epoch (host.lastAllocationSerial + 1)]).filter
      fun p => p.host = row.id).map (fun p => p.serial) = List.range' 1 row.lastAllocationSerial
    rw [List.filter_append, List.map_append]
    by_cases hit : old.id = host.id
    · have only : old = host := List.inj_on_of_nodup_map keys.hosts member placing.located hit
      rw [if_pos hit, only] at same
      have first : row.id = host.id := by rw [← same]
      have count : row.lastAllocationSerial = host.lastAllocationSerial + 1 := by rw [← same]
      rw [first, count, inv.serials host placing.located, List.range'_concat]
      simp [placedPermit, Nat.add_comm]
    · rw [if_neg hit] at same
      rw [← same, inv.serials old member]
      have apart : host.id ≠ old.id := fun same => hit same.symm
      simp [placedPermit, apart]

theorem FleetInv.reserveCreate {sandbox : SandboxId} {hostId : HostId} {facts : HostFacts} {now : Time}
    (inv : FleetInv allowSimulated f)
    (h : f.reserveCreate sandbox claim id hostId epoch facts now = .ok f') : FleetInv allowSimulated f' := by
  rcases inv.placing h with rfl | ⟨t, op, project, row, placing, _, after, rfl⟩
  · exact inv
  · exact inv.placed placing after

end Placing

/-! ### Admission and the operator's own writes -/

theorem FleetInv.admitCreate {project : ProjectId} {sandbox : SandboxId} {operation : OperationId}
    {size : GuestSize} {expiresAt : Option Time} (inv : FleetInv allowSimulated f)
    (h : f.admitCreate project sandbox operation size expiresAt = .ok f') : FleetInv allowSimulated f' := by
  unfold Fleet.admitCreate at h
  obtain ⟨_, _, h⟩ := bind_ok.mp h
  obtain ⟨_, unused, h⟩ := bind_ok.mp h
  have fresh : sandbox ∉ f.tenants.map (·.sandbox.id) := Table.find_eq_none.mp (ensure_ok.mp unused).1
  rw [← pure_ok.mp h]
  have keys := inv.toKeys
  have absent : Table.find (·.sandboxId) f.allocations sandbox = none := by
    refine Table.find_eq_none.mpr fun held => ?_
    obtain ⟨a, placed, same⟩ := List.mem_map.mp held
    exact fresh (same ▸ keys.tenant a placed)
  have unpermitted : Table.find (·.sandbox) f.permits sandbox = none := by
    refine Table.find_eq_none.mpr fun held => ?_
    obtain ⟨p, issued, same⟩ := List.mem_map.mp held
    exact Table.find_eq_none.mp absent (same ▸ (keys.permit p issued).2)
  refine ⟨⟨keys.hosts, keys.projects, ?_, keys.allocations, keys.placedOnce, keys.host, keys.project, ?_,
    keys.size, keys.permit, keys.issued⟩, ?_, ?_, inv.capacity, inv.quota, inv.serials⟩
  · rw [List.map_append]
    exact List.nodup_append.mpr ⟨keys.tenants, List.nodup_singleton _, by
      rintro other held _ mine rfl
      have same : other = sandbox := List.mem_singleton.mp mine
      exact fresh (same ▸ held)⟩
  · intro a held
    rw [List.map_append]
    exact List.mem_append_left _ (keys.tenant a held)
  · intro t held
    rcases List.mem_append.mp held with old | new
    · exact inv.views t old
    · refine ⟨operation, ?_⟩
      rw [List.mem_singleton.mp new]
      have view : LifecycleInv False allowSimulated operation
          (Store.admitCreate project sandbox operation expiresAt f.hostEpoch) := admitCreate_inv
      have empty : (⟨[createRow project sandbox operation],
          (Store.admitCreate project sandbox operation expiresAt f.hostEpoch).sandbox,
          (Table.find (·.sandboxId) f.allocations sandbox).map (·.toAllocationRow),
          Table.find (·.sandbox) f.permits sandbox, f.hostEpoch⟩ : Lifecycle) =
          Store.admitCreate project sandbox operation expiresAt f.hostEpoch := by
        rw [absent, unpermitted]
        rfl
      exact empty ▸ view
  · intro a held free t member same
    rcases List.mem_append.mp member with old | new
    · exact inv.current a held free t old same
    · rw [List.mem_singleton.mp new] at same
      have owner : sandbox = a.sandboxId := same
      exact absurd (owner ▸ keys.tenant a held) fresh

/-- Hosts may register again and gain capacity; nothing else in them changes. -/
theorem FleetInv.rehost (inv : FleetInv allowSimulated f) {write : HostRow → HostRow}
    (id : ∀ row, (write row).id = row.id)
    (serial : ∀ row, (write row).lastAllocationSerial = row.lastAllocationSerial)
    (epoch : ∀ row, row.supervisorEpoch ≤ (write row).supervisorEpoch)
    (capacity : ∀ row ∈ f.hosts, row.capacity.Within (write row).capacity) :
    FleetInv allowSimulated { f with hosts := f.hosts.map write } := by
  have hosts : (f.hosts.map write).map (·.id) = f.hosts.map (·.id) := by
    rw [List.map_map]
    exact List.map_congr_left fun row _ => id row
  have epochs : ∀ host, f.hostEpoch host ≤ Fleet.hostEpoch { f with hosts := f.hosts.map write } host := by
    intro host
    unfold Fleet.hostEpoch Fleet.host
    rw [Table.find_map id]
    cases Table.find (·.id) f.hosts host with
    | none => exact le_refl 0
    | some row => exact epoch row
  refine ⟨inv.toKeys.congr hosts rfl rfl rfl rfl, ?_, inv.current, ?_, inv.quota, ?_⟩
  · intro t held
    obtain ⟨c, before⟩ := inv.views t held
    exact ⟨c, before.touch ⟨rows_refl rfl, .refl, sameAllocation_refl, rfl, epochs⟩⟩
  · intro row held
    obtain ⟨old, member, rfl⟩ := List.mem_map.mp held
    rw [id]
    exact (inv.capacity old member).trans (capacity old member)
  · intro row held
    obtain ⟨old, member, rfl⟩ := List.mem_map.mp held
    rw [id, serial]
    exact inv.serials old member

theorem Fleet.usage_none {own : PlacedRow → Prop} [DecidablePred own] (none_ : ∀ a ∈ f.allocations, ¬own a) :
    f.usage own = { sandboxes := 0, vcpu := 0, memoryMib := 0, diskMib := 0 } := by
  have zero : ∀ weight : PlacedRow → ℤ,
      Table.total (fun a => own a ∧ a.releasedAt = none) weight f.allocations = 0 :=
    fun weight => Table.total_eq_zero fun a held both => none_ a held both.1
  unfold Fleet.usage
  simp only [zero]

theorem FleetInv.addHost {id : HostId} {capacity : GuestSize} (inv : FleetInv allowSimulated f)
    (h : f.addHost id capacity = .ok f') : FleetInv allowSimulated f' := by
  unfold Fleet.addHost at h
  obtain ⟨_, unused, h⟩ := bind_ok.mp h
  obtain ⟨absent, positive⟩ := ensure_ok.mp unused
  have fresh : id ∉ f.hosts.map (·.id) := Table.find_eq_none.mp absent
  rw [← pure_ok.mp h]
  have keys := inv.toKeys
  have epochs : Fleet.hostEpoch { f with hosts := f.hosts ++
      [{ id, supervisorEpoch := 0, capacity, lastAllocationSerial := 0 }] } = f.hostEpoch := by
    funext host
    have lookup : Table.find (·.id) (f.hosts ++
        [({ id, supervisorEpoch := 0, capacity, lastAllocationSerial := 0 } : HostRow)]) host =
        if id = host then some { id, supervisorEpoch := 0, capacity, lastAllocationSerial := 0 }
        else f.host host := Table.find_insert absent
    unfold Fleet.hostEpoch
    rw [show Fleet.host { f with hosts := f.hosts ++
      [{ id, supervisorEpoch := 0, capacity, lastAllocationSerial := 0 }] } host = _ from lookup]
    split
    next same =>
      subst same
      rw [absent]
      rfl
    · rfl
  refine ⟨⟨?_, keys.projects, keys.tenants, keys.allocations, keys.placedOnce, ?_, keys.project, keys.tenant,
    keys.size, ?_, keys.issued⟩, ?_, inv.current, ?_, inv.quota, ?_⟩
  · rw [List.map_append]
    exact List.nodup_append.mpr ⟨keys.hosts, List.nodup_singleton _, by
      rintro other held _ mine rfl
      have same : other = id := List.mem_singleton.mp mine
      exact fresh (same ▸ held)⟩
  · intro a held
    rw [List.map_append]
    exact List.mem_append_left _ (keys.host a held)
  · intro p held
    rw [List.map_append]
    exact ⟨List.mem_append_left _ (keys.permit p held).1, (keys.permit p held).2⟩
  · intro t held
    obtain ⟨c, before⟩ := inv.views t held
    refine ⟨c, before.touch ⟨rows_refl rfl, .refl, sameAllocation_refl, rfl, fun host => le_of_eq ?_⟩⟩
    exact (congrFun epochs host).symm
  · intro row held
    rcases List.mem_append.mp held with old | new
    · exact inv.capacity row old
    · rw [List.mem_singleton.mp new]
      have none_ : f.hostUsage id = { sandboxes := 0, vcpu := 0, memoryMib := 0, diskMib := 0 } :=
        Fleet.usage_none fun a held same => fresh (same ▸ keys.host a held)
      have usage : (f.hostUsage id).toGuestSize.Within capacity := by
        rw [none_]
        exact ⟨positive.1.le, positive.2.1.le, positive.2.2.le⟩
      exact usage
  · intro row held
    rcases List.mem_append.mp held with old | new
    · exact inv.serials row old
    · rw [List.mem_singleton.mp new]
      have empty : (f.permits.filter fun p => p.host = id) = [] := by
        refine List.filter_eq_nil_iff.mpr fun p issued => ?_
        intro same
        exact fresh (of_decide_eq_true same ▸ (keys.permit p issued).1)
      show (f.permits.filter fun p => p.host = id).map _ = []
      rw [empty]
      rfl

theorem FleetInv.addProject {project : ProjectRow} (inv : FleetInv allowSimulated f)
    (h : f.addProject project = .ok f') : FleetInv allowSimulated f' := by
  unfold Fleet.addProject at h
  obtain ⟨_, unused, h⟩ := bind_ok.mp h
  have fresh : project.id ∉ f.projects.map (·.id) := Table.find_eq_none.mp (ensure_ok.mp unused)
  rw [← pure_ok.mp h]
  have keys := inv.toKeys
  refine ⟨⟨keys.hosts, ?_, keys.tenants, keys.allocations, keys.placedOnce, keys.host, ?_, keys.tenant,
    keys.size, keys.permit, keys.issued⟩, inv.views, inv.current, inv.capacity, ?_, inv.serials⟩
  · rw [List.map_append]
    exact List.nodup_append.mpr ⟨keys.projects, List.nodup_singleton _, by
      rintro other held _ mine rfl
      have same : other = project.id := List.mem_singleton.mp mine
      exact fresh (same ▸ held)⟩
  · intro a held
    rw [List.map_append]
    exact List.mem_append_left _ (keys.project a held)
  · intro row held
    rcases List.mem_append.mp held with old | new
    · exact inv.quota row old
    · rw [List.mem_singleton.mp new]
      have none_ : f.projectUsage project.id = { sandboxes := 0, vcpu := 0, memoryMib := 0, diskMib := 0 } :=
        Fleet.usage_none fun a held same => fresh (same ▸ keys.project a held)
      have usage : (f.projectUsage project.id).Within project.limits.quota := by
        rw [none_]
        exact ⟨quotaOf_nonneg (by decide), quotaOf_nonneg (by decide), quotaOf_nonneg (by decide),
          quotaOf_nonneg (by decide)⟩
      exact usage

theorem FleetInv.setLimits {id : ProjectId} {limits : Limits} (inv : FleetInv allowSimulated f)
    (raised : ∀ row ∈ f.project id, row.limits.quota.Within limits.quota) :
    FleetInv allowSimulated
      { f with projects := Table.update (·.id) f.projects id fun row => { row with limits } } := by
  refine ⟨inv.toKeys.congr rfl (Table.map_update fun _ => rfl) rfl rfl rfl, inv.views, inv.current,
    inv.capacity, ?_, inv.serials⟩
  intro row held
  obtain ⟨old, member, same⟩ := Table.mem_update.mp held
  have found : f.project old.id = some old := Table.find_of_mem inv.projects member
  by_cases hit : old.id = id
  · rw [if_pos hit] at same
    rw [← same]
    exact (inv.quota old member).trans (raised old (hit ▸ found))
  · rw [if_neg hit] at same
    rw [← same]
    exact inv.quota old member

theorem fleetStep_inv (f : Fleet) (event : FleetEvent) (inv : FleetInv allowSimulated f)
    (unlowered : Unlowered f event) : FleetInv allowSimulated (fleetStep allowSimulated f event) := by
  cases event with
  | addHost id capacity => exact commit_keeps inv fun _ => inv.addHost
  | setCapacity id capacity =>
    refine inv.rehost (fun _ => by split <;> rfl) (fun _ => by split <;> rfl)
      (fun _ => by split <;> exact le_refl _) fun row held => ?_
    have found : f.host row.id = some row := Table.find_of_mem inv.hosts held
    have same : row.capacity.Within row.capacity := ⟨le_refl _, le_refl _, le_refl _⟩
    split
    next hit =>
      show row.capacity.Within (if capacity.Positive then capacity else row.capacity)
      split
      · exact unlowered row (hit ▸ found)
      · exact same
    · exact same
  | registerHost id epoch =>
    refine inv.rehost (fun _ => by split <;> rfl) (fun _ => by split <;> rfl) (fun row => ?_) fun row _ => ?_
    · split
      · exact le_max_left _ _
      · exact le_refl _
    · split <;> exact ⟨le_refl _, le_refl _, le_refl _⟩
  | addProject project => exact commit_keeps inv fun _ => inv.addProject
  | setLimits id limits => exact inv.setLimits unlowered
  | admitCreate project sandbox operation size expiresAt => exact commit_keeps inv fun _ => inv.admitCreate
  | reserveCreate sandbox claim id host expectedEpoch facts now =>
    exact commit_keeps inv fun _ => inv.reserveCreate
  | lifecycle sandbox event => exact commit_keeps inv fun _ => inv.transact event.2

theorem empty_inv : FleetInv allowSimulated {} := by
  refine ⟨⟨List.nodup_nil, List.nodup_nil, List.nodup_nil, List.nodup_nil, List.nodup_nil, ?_, ?_, ?_, ?_,
    ?_, ?_⟩, ?_, ?_, ?_, ?_, ?_⟩
  all_goals exact fun _ held => absurd held List.not_mem_nil

theorem FleetInv.bounded (inv : FleetInv allowSimulated f) : f.Bounded := by
  refine ⟨inv.capacity, inv.quota, fun sandbox => ?_, fun a held free => ?_, inv.serials, inv.issued⟩
  · refine Table.filter_length_le_one (k := sandbox) inv.placedOnce fun a held => ?_
    exact (of_decide_eq_true held).1
  · obtain ⟨t, member, same⟩ := List.mem_map.mp (inv.tenant a held)
    refine ⟨t, ?_, inv.current a held free t member same⟩
    exact same ▸ Table.find_of_mem inv.tenants member

/-- Whatever transactions run in whatever order, as long as no capacity or quota is lowered, the
unreleased allocations of every host and project stay within its capacity and quota, each sandbox
has at most one and it is its current one, and the serials of a host are issued without a gap. -/
theorem reservations_bounded (events : List FleetEvent)
    (unlowered : Along (fleetStep allowSimulated) Unlowered {} events) :
    (run (fleetStep allowSimulated) {} events).Bounded :=
  (run_guarded (fun f event inv here => fleetStep_inv f event inv here) empty_inv unlowered).bounded

end Tables

/-! ### A host for two guests, and three sandboxes that ask for it -/

namespace FleetSample

def at_ (n : ℤ) (late : seconds 10 < seconds n := by decide) : Clock := ⟨seconds n, late⟩

def facts : HostFacts := { ready := true, compatible := true, authorized := true }

/-- Admission, claim and placement of one sandbox. -/
def placing (n : ℕ) (time : Clock) : List FleetEvent :=
  [.admitCreate ⟨1⟩ ⟨20 + n⟩ ⟨50 + n⟩ { vcpu := 2, memoryMib := 512, diskMib := 64 } none,
    .lifecycle ⟨20 + n⟩ ⟨.claimLifecycle ⟨50 + n⟩ 60 time, trivial⟩,
    .reserveCreate ⟨20 + n⟩ { operationId := ⟨50 + n⟩, revision := 1 } ⟨30 + n⟩ ⟨4⟩ 1 facts time]

def setup : List FleetEvent :=
  [.addHost ⟨4⟩ { vcpu := 4, memoryMib := 8192, diskMib := 65536 }, .addProject { id := ⟨1⟩, limits := {} },
    .registerHost ⟨4⟩ 1]

/-- The third sandbox finds the host full, until the first one's reservation is rejected. -/
def events : List FleetEvent :=
  setup ++ placing 0 (at_ 40) ++ placing 1 (at_ 41) ++ placing 2 (at_ 42) ++
    [.lifecycle ⟨20⟩ ⟨.rejectUndispatchedCreate { operationId := ⟨50⟩, revision := 1 } .imageDenied (at_ 43), trivial⟩,
      .reserveCreate ⟨22⟩ { operationId := ⟨52⟩, revision := 1 } ⟨33⟩ ⟨4⟩ 1 facts (at_ 44)]

theorem released_reservation_reused :
    (run (fleetStep false) {} events).Bounded ∧
      (run (fleetStep false) {} events).permits.map (fun p => (p.sandbox, p.serial)) =
        [(⟨20⟩, 1), (⟨21⟩, 2), (⟨22⟩, 3)] :=
  ⟨reservations_bounded events (by decide +kernel), by decide +kernel⟩

end FleetSample
end HudsonSandbox.Store
