import HudsonSandbox.Host.System

/-!
# What a save may change

One lemma for each change of the record: what it checked and what the next record is. Nothing
later unfolds the change itself.
-/

namespace HudsonSandbox.Host
open Checked LiveOutput GuestModel Command History SupervisorFiles Supervisor Output Files

section
variable {files : FileEncoding} {record next : Record} {o : Ownership} {domain other : Domain}
  {ids : List OperationId}

/-! ### Fields -/

namespace Record

@[simp] theorem setSlot_slot {value : Option Retirement} :
    (record.setSlot domain value).slot domain = value := by
  cases domain <;> rfl

theorem setSlot_other {value : Option Retirement} (different : other ≠ domain) :
    (record.setSlot domain value).slot other = record.slot other := by
  cases domain <;> cases other <;> first | rfl | exact absurd rfl different

@[simp] theorem setSlot_releasedSlot {value : Option Retirement} :
    (record.setSlot domain value).releasedSlot other = record.releasedSlot other := by
  cases domain <;> cases other <;> rfl

@[simp] theorem setReleasedSlot_releasedSlot {value : Option ReleasedRetirement} :
    (record.setReleasedSlot domain value).releasedSlot domain = value := by
  cases domain <;> rfl

theorem setReleasedSlot_other {value : Option ReleasedRetirement} (different : other ≠ domain) :
    (record.setReleasedSlot domain value).releasedSlot other = record.releasedSlot other := by
  cases domain <;> cases other <;> first | rfl | exact absurd rfl different

@[simp] theorem setReleasedSlot_slot {value : Option ReleasedRetirement} :
    (record.setReleasedSlot domain value).slot other = record.slot other := by
  cases domain <;> cases other <;> rfl

@[simp] theorem remove_slot : (record.remove domain ids).slot other = record.slot other := by
  cases domain <;> cases other <;> rfl

@[simp] theorem remove_releasedSlot :
    (record.remove domain ids).releasedSlot other = record.releasedSlot other := by
  cases domain <;> cases other <;> rfl

@[simp] theorem setSlot_commands {value : Option Retirement} :
    (record.setSlot domain value).commands = record.commands := by
  cases domain <;> rfl

@[simp] theorem setSlot_files {value : Option Retirement} :
    (record.setSlot domain value).files = record.files := by
  cases domain <;> rfl

@[simp] theorem setSlot_revisions {value : Option Retirement} :
    (record.setSlot domain value).revisions = record.revisions := by
  cases domain <;> rfl

@[simp] theorem setSlot_manifest {value : Option Retirement} :
    (record.setSlot domain value).manifest = record.manifest := by
  cases domain <;> rfl

@[simp] theorem setReleasedSlot_commands {value : Option ReleasedRetirement} :
    (record.setReleasedSlot domain value).commands = record.commands := by
  cases domain <;> rfl

@[simp] theorem setReleasedSlot_files {value : Option ReleasedRetirement} :
    (record.setReleasedSlot domain value).files = record.files := by
  cases domain <;> rfl

@[simp] theorem setReleasedSlot_revisions {value : Option ReleasedRetirement} :
    (record.setReleasedSlot domain value).revisions = record.revisions := by
  cases domain <;> rfl

@[simp] theorem setReleasedSlot_manifest {value : Option ReleasedRetirement} :
    (record.setReleasedSlot domain value).manifest = record.manifest := by
  cases domain <;> rfl

@[simp] theorem setSlot_stopped {value : Option Retirement} :
    (record.setSlot domain value).stopped = record.stopped := by
  cases domain <;> rfl

@[simp] theorem setSlot_released {value : Option Retirement} :
    (record.setSlot domain value).released = record.released := by
  cases domain <;> rfl

@[simp] theorem setReleasedSlot_stopped {value : Option ReleasedRetirement} :
    (record.setReleasedSlot domain value).stopped = record.stopped := by
  cases domain <;> rfl

@[simp] theorem setReleasedSlot_released {value : Option ReleasedRetirement} :
    (record.setReleasedSlot domain value).released = record.released := by
  cases domain <;> rfl

@[simp] theorem remove_stopped : (record.remove domain ids).stopped = record.stopped := by
  cases domain <;> rfl

@[simp] theorem remove_released : (record.remove domain ids).released = record.released := by
  cases domain <;> rfl

@[simp] theorem remove_manifest : (record.remove domain ids).manifest = record.manifest := by
  cases domain <;> rfl

@[simp] theorem setSlot_retirement {value : Option Retirement} :
    (record.setSlot domain value).retirement = record.retirement := by
  cases domain <;> rfl

@[simp] theorem setReleasedSlot_retirement {value : Option ReleasedRetirement} :
    (record.setReleasedSlot domain value).retirement = record.retirement := by
  cases domain <;> rfl

@[simp] theorem remove_retirement : (record.remove domain ids).retirement = record.retirement := by
  cases domain <;> rfl

@[simp] theorem remove_revisions :
    (record.remove domain ids).revisions = eraseAll record.revisions ids := by
  cases domain <;> rfl

@[simp] theorem remove_commands_commands :
    (record.remove .commands ids).commands = eraseAll record.commands ids := rfl

@[simp] theorem remove_files_commands : (record.remove .files ids).commands = record.commands := rfl

@[simp] theorem remove_commands_files : (record.remove .commands ids).files = record.files := rfl

@[simp] theorem remove_files_files :
    (record.remove .files ids).files = eraseAll record.files ids := rfl

end Record

/-! ### Erasing -/

section
variable {V : Type} {map : Map V} {id : OperationId}

theorem eraseAll_lookup :
    (eraseAll map ids).lookup id = if id ∈ ids then none else map.lookup id := by
  unfold eraseAll
  induction ids generalizing map with
  | nil => simp
  | cons head rest ih =>
    rw [List.foldl_cons, ih]
    by_cases same : id = head
    · subst same
      simp
    · simp [AList.lookup_erase_ne same, same]

theorem mem_eraseAll : id ∈ eraseAll map ids ↔ id ∈ map ∧ id ∉ ids := by
  rw [← AList.lookup_isSome, ← AList.lookup_isSome, eraseAll_lookup]
  by_cases erased : id ∈ ids <;> simp [erased]

/-- What is left was there before, and in the same order. -/
theorem eraseAll_sublist : (eraseAll map ids).entries.Sublist map.entries := by
  unfold eraseAll
  induction ids generalizing map with
  | nil => exact List.Sublist.refl _
  | cons head rest ih => exact ih.trans (List.kerase_sublist _ _)

end

namespace Record

theorem mem_remove_names {id : OperationId} :
    id ∈ (record.remove domain ids).names domain ↔ id ∈ record.names domain ∧ id ∉ ids := by
  cases domain <;> exact mem_eraseAll

@[simp] theorem setSlot_names {value : Option Retirement} :
    (record.setSlot domain value).names other = record.names other := by
  cases domain <;> cases other <;> rfl

@[simp] theorem setReleasedSlot_names {value : Option ReleasedRetirement} :
    (record.setReleasedSlot domain value).names other = record.names other := by
  cases domain <;> cases other <;> rfl

end Record

/-! ### Revisions -/

theorem fenced_ok (passed : fenced o record = .ok next) :
    sameAllocation record.owner o ∧ record.retirement = none ∧
      (o.operationId ∈ record.revisions ∨ size record.revisions < 64) ∧
      next = { record with revisions := record.revisions.insert o.operationId o.claimRevision } := by
  obtain ⟨same, passed⟩ := seq_ok.mp passed
  obtain ⟨unretired, passed⟩ := seq_ok.mp passed
  obtain ⟨room, passed⟩ := seq_ok.mp passed
  obtain ⟨_, passed⟩ := seq_ok.mp passed
  exact ⟨ensure_ok.mp same, ensure_ok.mp unretired, ensure_ok.mp room, (pure_ok.mp passed).symm⟩

theorem leased_ok {lease : LeaseOwnership} {expires : Option ℤ}
    (passed : leased o lease expires record = .ok next) : ∃ request,
      next = { record with leaseRevision := lease.revision, leaseRequest := request } := by
  obtain ⟨_, passed⟩ := seq_ok.mp passed
  cases expires with
  | none => exact ⟨record.leaseRequest, (pure_ok.mp passed).symm⟩
  | some expires =>
    obtain ⟨_, passed⟩ := seq_ok.mp passed
    exact ⟨_, (pure_ok.mp passed).symm⟩

/-! ### History -/

theorem renew_ok {current : Option Retirement} {requested : Barrier} {revision : ℤ}
    {result : Option Retirement} (passed : renew current requested revision = .ok result) :
    (current = none ∧ result = none) ∨ ∃ held, current = some held ∧
      held.barrier.context = requested.context ∧ held.revision ≤ revision ∧
      (revision = held.revision → requested.through = held.requestedThrough) ∧
      (requested.through ≤ held.barrier.through ∧
          result = some { held with revision, requestedThrough := requested.through } ∨
        ¬requested.through ≤ held.barrier.through ∧ held.completed = true ∧ result = none) := by
  cases current with
  | none => exact .inl ⟨rfl, (pure_ok.mp passed).symm⟩
  | some held =>
    obtain ⟨context, passed⟩ := seq_ok.mp passed
    obtain ⟨stale, passed⟩ := seq_ok.mp passed
    obtain ⟨payload, passed⟩ := seq_ok.mp passed
    refine .inr ⟨held, rfl, ensure_ok.mp context, ensure_ok.mp stale, ?_, ?_⟩
    · intro same
      exact (ensure_ok.mp payload).resolve_left fun changed => changed same
    · split at passed
      next within => exact .inl ⟨within, (pure_ok.mp passed).symm⟩
      next beyond =>
        obtain ⟨completed, passed⟩ := seq_ok.mp passed
        exact .inr ⟨beyond, ensure_ok.mp completed, (pure_ok.mp passed).symm⟩

/-- A prepared floor either renews the retained one or covers records that all have an end. -/
theorem prepare_ok {requested : Barrier} {revision : ℤ} {retirement : Retirement}
    (passed : prepare files record requested revision = .ok retirement) :
    0 < revision ∧ requested.validate requested.context requested.domain = .ok () ∧
      requested.context.allocationId = record.owner.allocationId ∧
      requested.context.generation = record.owner.generation ∧
      retirement.revision = revision ∧ retirement.requestedThrough = requested.through ∧
      ((∃ held, record.slot requested.domain = some held ∧
          held.barrier.context = requested.context ∧ held.revision ≤ revision ∧
          requested.through ≤ held.barrier.through ∧ retirement.barrier = held.barrier ∧
          retirement.completed = held.completed) ∨
        retirement.barrier = requested ∧ retirement.completed = false ∧
          eligible files record requested ∧ ∀ held ∈ record.slot requested.domain,
            held.completed = true ∧ held.barrier.context = requested.context ∧
              held.revision ≤ revision ∧ ¬requested.through ≤ held.barrier.through) := by
  obtain ⟨positive, passed⟩ := seq_ok.mp passed
  obtain ⟨valid, passed⟩ := seq_ok.mp passed
  obtain ⟨owner, passed⟩ := seq_ok.mp passed
  obtain ⟨renewed, before, passed⟩ := bind_ok.mp passed
  refine ⟨ensure_ok.mp positive, valid, (ensure_ok.mp owner).1, (ensure_ok.mp owner).2, ?_⟩
  have fresh : ∀ held : Option Retirement, (do
      ensure (eligible files record requested) "unresolved retirement history"
      pure { barrier := requested, revision, requestedThrough := requested.through,
             completed := false }) = Except.ok retirement → (∀ h ∈ held, h.completed = true ∧
        h.barrier.context = requested.context ∧ h.revision ≤ revision ∧
        ¬requested.through ≤ h.barrier.through) →
      retirement.revision = revision ∧ retirement.requestedThrough = requested.through ∧
        retirement.barrier = requested ∧ retirement.completed = false ∧
        eligible files record requested ∧ ∀ h ∈ held, h.completed = true ∧
          h.barrier.context = requested.context ∧ h.revision ≤ revision ∧
          ¬requested.through ≤ h.barrier.through := by
    intro held passed known
    obtain ⟨resolved, passed⟩ := seq_ok.mp passed
    obtain rfl := pure_ok.mp passed
    exact ⟨rfl, rfl, rfl, rfl, ensure_ok.mp resolved, known⟩
  obtain ⟨missing, rfl⟩ | ⟨held, found, context, stale, _, within | beyond⟩ := renew_ok before
  · obtain ⟨revised, asked, rest⟩ := fresh none passed fun _ absent => by cases absent
    exact ⟨revised, asked, .inr (missing ▸ rest)⟩
  · obtain ⟨within, rfl⟩ := within
    obtain rfl := pure_ok.mp passed
    exact ⟨rfl, rfl, .inl ⟨held, found, context, stale, within, rfl, rfl⟩⟩
  · obtain ⟨beyond, completed, rfl⟩ := beyond
    obtain ⟨revised, asked, rest⟩ := fresh (some held) passed fun h same => by
      obtain rfl := Option.some.inj same
      exact ⟨completed, context, stale, beyond⟩
    exact ⟨revised, asked, .inr (found ▸ rest)⟩

theorem complete_ok {retirement : Retirement}
    (passed : complete files record retirement = .ok next) :
    ∃ current, record.slot retirement.barrier.domain = some current ∧
      current.barrier = retirement.barrier ∧ current.revision = retirement.revision ∧
      eligible files record retirement.barrier ∧
      next = (record.remove retirement.barrier.domain ((record.names retirement.barrier.domain).filter
        fun id => retirement.barrier.covers id)).setSlot retirement.barrier.domain
          (some { current with completed := true }) := by
  obtain ⟨current, found, passed⟩ := bind_ok.mp passed
  obtain ⟨same, passed⟩ := seq_ok.mp passed
  obtain ⟨met, passed⟩ := seq_ok.mp passed
  exact ⟨current, okOr_ok.mp found, (ensure_ok.mp same).1, (ensure_ok.mp same).2, ensure_ok.mp met,
    (pure_ok.mp passed).symm⟩

theorem reclaimThrough_ok {old : Option ReleasedRetirement} {through completed : OperationId}
    {revision epoch : ℤ} (passed : reclaimThrough old through revision epoch = .ok completed) :
    through ≤ completed ∧ ∀ held ∈ old, held.through ≤ completed ∧ held.revision ≤ revision ∧
      held.reportingEpoch ≤ epoch ∧
      (revision = held.revision → through = held.requestedThrough ∧ epoch = held.reportingEpoch) := by
  cases old with
  | none =>
    obtain rfl := pure_ok.mp passed
    exact ⟨le_rfl, fun _ absent => by cases absent⟩
  | some old =>
    obtain ⟨stale, passed⟩ := seq_ok.mp passed
    obtain ⟨payload, passed⟩ := seq_ok.mp passed
    obtain rfl := pure_ok.mp passed
    refine ⟨le_max_left _ _, fun held same => ?_⟩
    obtain rfl := Option.some.inj same
    exact ⟨le_max_right _ _, (ensure_ok.mp stale).1, (ensure_ok.mp stale).2, fun reused =>
      (ensure_ok.mp payload).resolve_left fun changed => changed reused⟩

theorem reclaim_ok {boot : Except String (Option String)} {domain : Domain}
    {through completed : OperationId} {revision epoch : ℤ}
    (passed : reclaim files record boot domain through revision epoch = .ok (next, completed)) :
    record.stopped = true ∧ 0 < revision ∧ record.owner.supervisorEpoch ≤ epoch ∧
      reclaimThrough (record.releasedSlot domain) through revision epoch = .ok completed ∧
      ∃ boot, releasedEligible files record boot domain
        ((record.names domain).filter fun id => id ≤ completed) ∧
      next = (record.remove domain ((record.names domain).filter fun id => id ≤ completed)
        ).setReleasedSlot domain (some
          { version := 1, through := completed, requestedThrough := through, revision,
            reportingEpoch := epoch }) := by
  obtain ⟨_, passed⟩ := seq_ok.mp passed
  obtain ⟨met, passed⟩ := seq_ok.mp passed
  obtain ⟨reached, prefixed, passed⟩ := bind_ok.mp passed
  obtain ⟨ids, covered, passed⟩ := bind_ok.mp passed
  obtain ⟨boot, passed⟩ : ∃ boot, (do
      ensure (releasedEligible files record boot domain ids) "unresolved destroyed history"
      pure ((record.remove domain ids).setReleasedSlot domain (some
        { version := 1, through := reached, requestedThrough := through, revision,
          reportingEpoch := epoch }), reached)) = Except.ok (next, completed) := by
    dsimp only at passed
    split at passed
    · exact (bind_ok.mp passed).imp fun _ found => found.2
    · exact ⟨none, passed⟩
  obtain ⟨resolved, passed⟩ := seq_ok.mp passed
  obtain ⟨_, covered⟩ := seq_ok.mp covered
  obtain rfl := pure_ok.mp covered
  obtain ⟨rfl, rfl⟩ := Prod.mk.inj (pure_ok.mp passed)
  obtain ⟨stopped, positive, older⟩ := ensure_ok.mp met
  exact ⟨stopped, positive, older, prefixed, boot, ensure_ok.mp resolved, rfl⟩

/-! ### Archives and fences -/

theorem outputPrepared_ok {ticket : OutputTicket} {plans : Option OutputPlans} {revision : ℤ}
    (passed : outputPrepared ticket plans revision record = .ok next) :
    ∃ archives, next = { record with archives } := by
  obtain ⟨receipt, _, passed⟩ := bind_ok.mp passed
  obtain ⟨_, passed⟩ := seq_ok.mp passed
  cases plans with
  | none =>
    obtain ⟨_, passed⟩ := seq_ok.mp passed
    exact ⟨_, (pure_ok.mp passed).symm⟩
  | some plans =>
    obtain ⟨_, passed⟩ := seq_ok.mp passed
    obtain ⟨_, passed⟩ := seq_ok.mp passed
    exact ⟨_, (pure_ok.mp passed).symm⟩

theorem outputPlanned_ok {ticket : OutputTicket} {plans : OutputPlans} {revision : ℤ}
    (passed : outputPlanned ticket plans revision record = .ok next) :
    ∃ archives, next = { record with archives } := by
  obtain ⟨_, passed⟩ := seq_ok.mp passed
  obtain ⟨_, passed⟩ := seq_ok.mp passed
  obtain ⟨receipt, _, passed⟩ := bind_ok.mp passed
  obtain ⟨_, passed⟩ := seq_ok.mp passed
  obtain ⟨saved, _, passed⟩ := bind_ok.mp passed
  obtain ⟨_, passed⟩ := seq_ok.mp passed
  exact ⟨_, (pure_ok.mp passed).symm⟩

theorem outputPrepared_unretired {ticket : OutputTicket} {plans : Option OutputPlans} {revision : ℤ}
    (passed : outputPrepared ticket plans revision record = .ok next) : record.retirement = none := by
  obtain ⟨receipt, archived, _⟩ := bind_ok.mp passed
  obtain ⟨_, archived⟩ := seq_ok.mp archived
  obtain ⟨checked, _⟩ := seq_ok.mp archived
  exact ensure_ok.mp (seq_ok.mp checked).1

theorem outputPlanned_unretired {ticket : OutputTicket} {plans : OutputPlans} {revision : ℤ}
    (passed : outputPlanned ticket plans revision record = .ok next) : record.retirement = none := by
  obtain ⟨_, passed⟩ := seq_ok.mp passed
  obtain ⟨checked, _⟩ := seq_ok.mp passed
  exact ensure_ok.mp (seq_ok.mp checked).1

theorem frozen_ok {request : AllocationRetirement.Request} {epoch now : ℤ}
    (passed : frozen request epoch now record = .ok next) :
    scope record request = .ok () ∧
      next = { record with retirement := some request, stopped := true } := by
  obtain ⟨settled, passed⟩ := seq_ok.mp passed
  obtain ⟨_, passed⟩ := seq_ok.mp passed
  exact ⟨mapError_ok.mp settled, (pure_ok.mp passed).symm⟩

end
end HudsonSandbox.Host
