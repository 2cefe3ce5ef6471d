import HudsonSandbox.Host.Reached

/-!
# Every request is a sequence of moves

Lifecycle requests read the record, look at the guardian without the journal, and save again;
between the two only what every later record shares with the one that was read can be used.
-/

namespace HudsonSandbox.Host
open Checked LiveOutput GuestModel Command History SupervisorFiles Supervisor Output Effect Run
  Files

section
variable {commands : CommandEncoding} {files : FileEncoding} {fences : OperationId → Prop}
  {origin : Host}
  {pre : Host → Prop} {o : Ownership} {record seen : Record} {disk : Disk}
  {P : ℤ → Record → Prop}

/-! ### What a guardian's answer is saved over -/

/-- While the journal can be read, its record satisfies `P` in this process's epoch. -/
def Holding (P : ℤ → Record → Prop) (s : Host) : Prop :=
  s.up = true ∧ (s.poisoned = false → ∃ record, s.record = some record ∧ P s.epoch record)

theorem Live.holding {s : Host} (live : Live s record) (holds : P s.epoch record) : Holding P s :=
  ⟨live.up, fun _ => ⟨record, live.found, holds⟩⟩

theorem Holding.of_live {s : Host} (holding : Holding P s) (live : Live s record) :
    P s.epoch record := by
  obtain ⟨current, found, holds⟩ := holding.2 live.unpoisoned
  have same := Option.some.inj (live.found.symm.trans found)
  exact same ▸ holds

/-- An update keeps what its change keeps. -/
theorem holding_keeps {change : Record → Except Status Record}
    (step : ∀ s record next, P s.epoch record → Live s record → change record = .ok next →
      Change commands files fences s record next ∧ P s.epoch next) :
    Keeps (Reached commands files fences origin) (Holding P) (update disk change)
      (fun _ => Holding P) := by
  refine (update_keeps (fun _ holding => holding.1) ?_).returns ?_
  · intro s record next holding live passed
    exact (step s record next (holding.of_live live) live passed).1
  · rintro next _ _ ⟨live, before, record, _, held, holding, passed, rfl⟩
    exact live.holding (step before record next (holding.of_live held) held passed).2

theorem stopped_keeps
    (stable : ∀ epoch record, P epoch record → P epoch { record with stopped := true }) :
    Keeps (Reached commands files fences origin) (Holding P) (stopped disk) (fun _ => Holding P) := by
  refine holding_keeps fun s record next holds _ passed => ?_
  obtain rfl := Except.ok.inj passed
  exact ⟨.stop, stable _ _ holds⟩

/-- What an observation may do to a record that was read some time ago. -/
structure Observable (seen : Record) (P : ℤ → Record → Prop) : Prop where
  owner : ∀ epoch record, P epoch record → seen.manifest.isSome = true →
    record.manifest.isSome = true
  stable : ∀ epoch record, P epoch record →
    P epoch { record with stopped := true, released := true }

theorem released_keeps (observable : Observable seen P) (owner : seen.manifest.isSome = true) :
    Keeps (Reached commands files fences origin) (Holding P) (released disk) (fun _ => Holding P) := by
  refine Keeps.bind (read_keeps fun _ holding => holding.1) fun record =>
    Keeps.ite (fun _ => ?_) fun _ => ?_
  · exact Keeps.pure fun _ _ met => met.2
  · refine (holding_keeps fun s current next holds _ passed => ?_).strengthen fun _ _ met => met.2
    obtain rfl := Except.ok.inj passed
    exact ⟨.release (observable.owner _ _ holds owner), observable.stable _ _ holds⟩

theorem cleanup_keeps {t : GuardianTurns} (observable : Observable seen P) :
    Keeps (Reached commands files fences origin) (Holding P) (cleanup seen t) (fun _ => Holding P) := by
  unfold cleanup
  match found : seen.manifest with
  | none => exact Keeps.bind Keeps.check fun _ => Keeps.pure fun _ _ met => met.2
  | some manifest =>
    have owner : seen.manifest.isSome = true := by rw [found]; rfl
    refine Keeps.bind Keeps.check fun _ => Keeps.bind
      ((released_keeps observable owner).strengthen fun _ _ met => met.2) fun _ => ?_
    exact Keeps.pure fun _ _ holding => holding

theorem observeRecord_keeps {t : GuardianTurns} (observable : Observable seen P) :
    Keeps (Reached commands files fences origin) (Holding P) (observeRecord seen t)
      (fun _ s => seen.retirement = none ∧ Holding P s) := by
  refine Keeps.bind Keeps.check fun _ => Keeps.given (fun _ _ met => met.1) fun passed => ?_
  have unretired := ensure_ok.mp passed
  refine Keeps.ite (fun _ => ?_) fun _ => Keeps.ite (fun _ => ?_) fun present => ?_
  · refine Keeps.bind ((cleanup_keeps observable).strengthen fun _ _ met => met.2) fun _ => ?_
    exact Keeps.pure fun _ _ holding => ⟨unretired, holding⟩
  · exact Keeps.pure fun _ _ met => ⟨unretired, met.2⟩
  · have owner : seen.manifest.isSome = true := by
      cases same : seen.manifest <;> simp_all
    match t.running with
    | some receipt => exact Keeps.pure fun _ _ met => ⟨unretired, met.2⟩
    | none =>
      refine Keeps.bind Keeps.check fun _ => Keeps.bind
        ((released_keeps observable owner).strengthen fun _ _ met => met.2.2) fun _ => ?_
      exact Keeps.pure fun _ _ holding => ⟨unretired, holding⟩

/-- The manifest of an allocation is never replaced while one of its requests holds the gate. -/
def SameManifest (manifest : Option Manifest) (_epoch : ℤ) (record : Record) : Prop :=
  record.manifest = manifest

theorem SameManifest.observable : Observable seen (SameManifest seen.manifest) where
  owner _ _ same present := same ▸ present
  stable _ _ same := same

theorem observeOwned_keeps {held : Option Manifest} {t : GuardianTurns} {now : ℤ}
    (same : seen.manifest = held) :
    Keeps (Reached commands files fences origin) (Holding (SameManifest held)) (observeOwned o seen t now)
      (fun _ _ => True) := by
  subst same
  exact Keeps.bind (observeRecord_keeps SameManifest.observable) fun _ =>
    Keeps.pure fun _ _ _ => trivial

/-! ### Creating, inspecting and stopping -/

theorem Owned.store {s : Host} (owned : Owned s o) (next : Record) : Owned (s.store next) o :=
  ⟨owned.host, owned.epoch, owned.allocation, owned.generation, owned.revision⟩

theorem fenceLifecycle_keeps {m : Moment} (stable : ∀ s record, pre s → pre (s.store record)) :
    Keeps (Reached commands files fences origin)
      (fun s => s.up = true ∧ Owned s o ∧ o.operationId ∈ s.lifecycle ∧ pre s) (fence o m)
      (fun next s => Live s next ∧ sameAllocation next.owner o ∧ next.retirement = none ∧ pre s) := by
  refine Keeps.bind Keeps.check fun _ => (update_keeps (fun _ met => met.2.1) ?_).returns ?_
  · rintro s record next ⟨_, _, owned, marked, _⟩ _ passed
    exact .fenceLifecycle marked owned passed
  · rintro next _ _ ⟨live, before, record, _, _, ⟨_, _, _, _, met⟩, passed, rfl⟩
    obtain ⟨same, unretired, _, rfl⟩ := fenced_ok passed
    exact ⟨live, same, unretired, stable before _ met⟩

theorem mark_keeps (stable : ∀ s id, pre s → pre { s with lifecycle := insert id s.lifecycle }) :
    Keeps (Reached commands files fences origin) (fun s => s.up = true ∧ Owned s o ∧ pre s)
      (mark o.operationId)
      (fun _ s => s.up = true ∧ Owned s o ∧ o.operationId ∈ s.lifecycle ∧ pre s) := by
  refine Keeps.modify _ fun s reached ⟨up, owned, met⟩ => ⟨reached.tail (.mark _), up, ?_, ?_, ?_⟩
  · exact ⟨owned.host, owned.epoch, owned.allocation, owned.generation, owned.revision⟩
  · exact Finset.mem_insert_self _ _
  · exact stable s _ met

theorem inspectSync_keeps {stop : Bool} {t : LifecycleTurns} :
    Keeps (Reached commands files fences origin) (fun s => s.up = true ∧ Owned s o)
      (inspectSync o stop t) (fun _ _ => True) := by
  refine Keeps.bind ((mark_keeps fun _ _ _ => trivial).strengthen
    fun _ _ met => ⟨met.1, met.2, trivial⟩) fun _ =>
    Keeps.bind (fenceLifecycle_keeps fun _ _ _ => trivial) fun record => ?_
  have start : ∀ s, Live s record → Holding (SameManifest record.manifest) s := fun s live =>
    live.holding rfl
  refine Keeps.ite (fun _ => ?_) fun _ => ?_
  · refine Keeps.bind ((stopped_keeps fun _ _ same => same).strengthen
      fun s _ met => start s met.1) fun _ => observeOwned_keeps rfl
  · exact (observeOwned_keeps rfl).strengthen fun s _ met => start s met.1

theorem abandon_keeps {t : CreateTurns} (same : record.manifest = seen.manifest) :
    Keeps (Reached commands files fences origin) (fun s => Live s record) (abandon o seen t)
      (fun _ _ => True) := by
  have start : ∀ s, Live s record → Holding (SameManifest seen.manifest) s := fun s live =>
    live.holding same
  refine Keeps.bind ((stopped_keeps fun _ _ same => same).strengthen
    fun s _ live => start s live) fun _ => observeOwned_keeps rfl

theorem launch_keeps {t : CreateTurns} (owner : record.manifest.isSome = true)
    (unretired : record.retirement = none) :
    Keeps (Reached commands files fences origin) (fun s => Live s record) (launch o record t)
      (fun _ _ => True) := by
  have dispatched : Keeps (Reached commands files fences origin) (fun s => Live s record)
      (update t.dispatched fun record => .ok { record with dispatched := true })
      (fun _ s => Live s { record with dispatched := true }) := by
    refine (update_keeps (fun _ live => live.up) ?_).returns ?_
    · rintro s current next live held passed
      obtain rfl := live.unique held
      obtain rfl := Except.ok.inj passed
      exact .dispatched owner unretired
    · rintro next _ _ ⟨live, before, current, _, held, found, passed, rfl⟩
      obtain rfl := found.unique held
      obtain rfl := Except.ok.inj passed
      exact live
  refine Keeps.bind dispatched fun _ => Keeps.ite (fun _ => ?_) fun _ => ?_
  · match t.ready with
    | some receipt => exact Keeps.pure fun _ _ _ => trivial
    | none => exact Keeps.refuse
  · exact abandon_keeps rfl

theorem admitManifest_keeps {request : CreateRequest} {t : CreateTurns} (fresh : record.create = none)
    (running : record.stopped = false) (same : sameAllocation record.owner o)
    (unretired : record.retirement = none) :
    Keeps (Reached commands files fences origin) (fun s => Live s record ∧
        authorizeCreate s.launchPermitsRequired o request true = .ok ⟨⟩) (admitManifest o request t)
      (fun next s => Live s next ∧ next.manifest.isSome = true ∧ next.retirement = none) := by
  refine (update_keeps (fun _ met => met.1.up) ?_).returns ?_
  · rintro s current next ⟨live, authorized⟩ held passed
    obtain rfl := live.unique held
    split at passed
    · cases passed
    · obtain rfl := Except.ok.inj passed
      exact .create fresh running same unretired authorized
  · rintro next _ _ ⟨live, _, current, _, found, ⟨held, _⟩, passed, rfl⟩
    obtain rfl := held.unique found
    split at passed
    · cases passed
    · obtain rfl := Except.ok.inj passed
      exact ⟨live, rfl, unretired⟩

theorem createSync_keeps {request : CreateRequest} {t : CreateTurns} :
    Keeps (Reached commands files fences origin) (fun s => s.up = true ∧ Owned s o ∧
        authorizeCreate s.launchPermitsRequired o request true = .ok ⟨⟩)
      (createSync o request t) (fun _ _ => True) := by
  refine Keeps.bind (mark_keeps fun _ _ authorized => authorized) fun _ =>
    Keeps.bind (fenceLifecycle_keeps fun _ _ authorized => authorized) fun record => ?_
  match fresh : record.create with
  | some original =>
    refine Keeps.bind Keeps.check fun _ => (observeOwned_keeps rfl).strengthen fun s _ met => ?_
    exact met.2.1.holding rfl
  | none =>
    refine Keeps.bind Keeps.check fun _ => Keeps.given (fun _ _ met => met.1) fun passed =>
      Keeps.given (fun _ _ met => met.2.2.1) fun same =>
      Keeps.given (fun _ _ met => met.2.2.2.1) fun unretired => ?_
    have running := ensure_ok.mp passed
    refine Keeps.bind ((admitManifest_keeps fresh running same unretired).strengthen
      fun _ _ met => ⟨met.2.1, met.2.2.2.2⟩) fun next =>
      Keeps.given (fun _ _ met => met.2) fun ⟨owner, unretired⟩ => Keeps.ite (fun _ => ?_) fun _ => ?_
    · exact (launch_keeps owner unretired).strengthen fun _ _ met => met.1
    · exact (abandon_keeps rfl).strengthen fun _ _ met => met.1

/-! ### Leases, recovery and maintenance -/

theorem renewLease_keeps {expires : Option ℤ} {t : LeaseTurns} :
    Keeps (Reached commands files fences origin) pre (renewLease record expires t) (fun _ => pre) := by
  refine Keeps.ite (fun _ => ?_) fun _ => Keeps.pure fun _ _ met => met
  exact Keeps.bind (Keeps.call Reached.durable) fun _ => Keeps.check.returns fun _ _ _ met => met.2

theorem leaseSync_keeps {lease : LeaseOwnership} {expires : Option ℤ} {t : LeaseTurns} :
    Keeps (Reached commands files fences origin) (fun s => s.up = true) (leaseSync o lease expires t)
      (fun _ _ => True) := by
  refine Keeps.bind Keeps.check fun _ => Keeps.bind
    (update_keeps (fun _ met => met.2) fun _ _ _ _ _ passed => .lease passed) fun record => ?_
  refine Keeps.bind renewLease_keeps fun _ => Keeps.bind
    ((observeRecord_keeps SameManifest.observable).strengthen fun _ _ met => met.1.holding rfl)
    fun _ => Keeps.pure fun _ _ _ => trivial

theorem previousAllocation_keeps {t : PreviousTurns} :
    Keeps (Reached commands files fences origin) (fun s => s.up = true) (previousAllocation o t)
      (fun _ _ => True) := by
  refine Keeps.bind Keeps.check fun _ => Keeps.bind (read_keeps fun _ met => met.2) fun record =>
    Keeps.bind Keeps.check fun _ => Keeps.bind Keeps.check fun _ => Keeps.bind
      ((observeRecord_keeps SameManifest.observable).strengthen
        fun _ _ met => met.2.2.1.holding rfl) fun _ => ?_
  exact Keeps.bind Keeps.check fun _ => Keeps.bind Keeps.check fun _ =>
    Keeps.pure fun _ _ _ => trivial

theorem reconcile_keeps {t : GuardianTurns} :
    Keeps (Reached commands files fences origin)
      (Holding fun _ current => current.manifest.isSome = true) (observeRecord record t)
      (fun _ _ => True) :=
  (observeRecord_keeps ⟨fun _ _ present _ => present, fun _ _ present => present⟩).returns
    fun _ _ _ _ => trivial

/-! ### Retiring history -/

/-- A live record backs what is told. -/
def Told (fact : Fact) (s : Host) : Prop := ∃ record, Live s record ∧ Backed record fact

/-- The floor of the domain is complete. -/
def Floored (retirement : Retirement) (s : Host) : Prop :=
  ∃ record, Live s record ∧ ∃ r ∈ record.slot retirement.barrier.domain,
    r.barrier = retirement.barrier ∧ r.completed = true

theorem saveFloor_keeps {barrier : Barrier} {revision : ℤ} {retirement : Retirement}
    {boot : Option String} {client : Option Context} {t : HistoryTurns}
    (prepared : prepare files record barrier revision = .ok retirement)
    (guest : historyClient record retirement boot = .ok client) :
    Keeps (Reached commands files fences origin) (fun s => Live s record) (saveFloor retirement t)
      (fun next s => Live s next ∧ next.slot retirement.barrier.domain = some retirement ∧
        next.stopped = record.stopped) := by
  refine (update_keeps (fun _ live => live.up) ?_).returns ?_
  · rintro s current next live held passed
    obtain rfl := live.unique held
    obtain ⟨_, passed⟩ := seq_ok.mp passed
    obtain rfl := pure_ok.mp passed
    exact .floor prepared guest
  · rintro next _ _ ⟨live, _, current, _, found, held, passed, rfl⟩
    obtain rfl := held.unique found
    obtain ⟨_, passed⟩ := seq_ok.mp passed
    obtain rfl := pure_ok.mp passed
    exact ⟨live, Record.setSlot_slot, Record.setSlot_stopped⟩

theorem reclaimGuest_keeps {lease : LeaseOwnership} {retirement : Retirement} {t : HistoryTurns} :
    Keeps (Reached commands files fences origin) (Holding fun _ record => record.stopped = false)
      (reclaimGuest files lease retirement t) (fun _ => Floored retirement) := by
  refine Keeps.bind Keeps.check fun _ => Keeps.bind (Keeps.call Reached.durable) fun reply => ?_
  match reply with
  | none => exact Keeps.refuse
  | some () =>
    refine Keeps.bind Keeps.check fun _ => Keeps.bind (update_keeps (fun _ met => met.2.2.1) ?_)
      fun next => Keeps.pure ?_
    · rintro s current next ⟨_, _, holding⟩ live passed
      exact .complete (mapError_ok.mp passed) (holding.of_live live)
    · rintro s _ ⟨live, _, _, _, _, _, passed, _⟩
      obtain ⟨current, _, same, _, _, rfl⟩ := complete_ok (mapError_ok.mp passed)
      exact ⟨_, live, _, Record.setSlot_slot, same, rfl⟩

theorem historyClient_completed {retirement : Retirement} {boot : Option String}
    (guest : historyClient record retirement boot = .ok none) : retirement.completed = true := by
  by_contra pending
  rw [historyClient, if_neg pending] at guest
  obtain ⟨_, guest⟩ := seq_ok.mp guest
  obtain ⟨_, _, guest⟩ := bind_ok.mp guest
  obtain ⟨_, _, guest⟩ := bind_ok.mp guest
  obtain ⟨_, guest⟩ := seq_ok.mp guest
  cases pure_ok.mp guest

/-- A guest is asked only while its allocation runs. -/
theorem historyClient_running {retirement : Retirement} {boot : Option String} {client : Context}
    (guest : historyClient record retirement boot = .ok (some client)) : record.stopped = false := by
  by_cases done : retirement.completed = true
  · rw [historyClient, if_pos done] at guest
    cases guest
  · rw [historyClient, if_neg done] at guest
    obtain ⟨live, _⟩ := seq_ok.mp guest
    exact (ensure_ok.mp live).1

theorem retireHistory_keeps {request : HistoryRequest} {lease : LeaseOwnership} {barrier : Barrier}
    {t : HistoryTurns} :
    Keeps (Reached commands files fences origin) (fun s => s.up = true)
      (retireHistory files o request lease barrier t)
      (fun observation => Told (.retired observation)) := by
  refine Keeps.bind Keeps.check fun _ => Keeps.bind (read_keeps fun _ met => met.2) fun record =>
    Keeps.bind Keeps.check fun _ => Keeps.bind Keeps.check fun retirement =>
    Keeps.given (fun _ _ met => met.1) fun prepared => Keeps.bind Keeps.check fun client =>
    Keeps.given (fun _ _ met => met.1) fun guest => Keeps.bind Keeps.check fun _ => ?_
  have answers : Keeps (Reached commands files fences origin) (Floored retirement)
      (do check (deadline lease.claimExpiresUnixMs t.answer)
          pure { request, completed := retirement.barrier, simulated := false,
                 observedUnixMs := t.observed })
      (fun observation => Told (.retired observation)) := by
    refine Keeps.bind Keeps.check fun _ => Keeps.pure ?_
    rintro s _ ⟨_, record, live, backed⟩
    exact ⟨record, live, backed⟩
  refine Keeps.bind ((saveFloor_keeps (mapError_ok.mp prepared) guest).strengthen
    fun _ _ met => met.2.2.2.2.1) fun next => Keeps.ite (fun asked => ?_) fun settled => ?_
  · obtain ⟨context, rfl⟩ := Option.isSome_iff_exists.mp asked
    refine Keeps.bind (reclaimGuest_keeps.strengthen ?_) fun _ => answers
    exact fun _ _ met => met.1.holding (met.2.2.trans (historyClient_running guest))
  · refine answers.strengthen ?_
    rintro s _ ⟨live, saved, _⟩
    cases client with
    | some client => exact absurd rfl settled
    | none => exact ⟨next, live, retirement, saved, rfl, historyClient_completed guest⟩

/-- What is still so of a stopped record that was seen, before its release is observed again. -/
structure Unretired (seen : Record) (reported : ℤ) (epoch : ℤ) (record : Record) : Prop where
  epoch : epoch = reported
  retirement : record.retirement = seen.retirement
  manifest : record.manifest = seen.manifest

/-- Nothing of the allocation runs any more. -/
def Record.Ended (record : Record) : Prop := record.manifest = none ∨ record.released = true

/-- What a released floor is saved over. -/
def Reclaimable (reported : ℤ) (epoch : ℤ) (record : Record) : Prop :=
  epoch = reported ∧ record.retirement = none ∧ record.Ended

/-- An observation of a stopped allocation that answers has seen its end recorded. -/
theorem observeEnded_keeps {reported : ℤ} {t : GuardianTurns} (stopped : seen.stopped = true) :
    Keeps (Reached commands files fences origin) (Holding (Unretired seen reported)) (observeRecord seen t)
      (fun _ => Holding (Reclaimable reported)) := by
  refine Keeps.bind Keeps.check fun _ => Keeps.given (fun _ _ met => met.1) fun passed => ?_
  have unretired := ensure_ok.mp passed
  refine Keeps.ite (fun _ => Keeps.bind ?_ fun _ => Keeps.pure fun _ _ met => met)
    fun running => absurd stopped running
  unfold cleanup
  match found : seen.manifest with
  | none =>
    refine Keeps.bind Keeps.check fun _ => Keeps.pure ?_
    rintro s _ ⟨_, _, up, held⟩
    refine ⟨up, fun calm => (held calm).imp fun record held => ⟨held.1, ?_⟩⟩
    exact ⟨held.2.epoch, held.2.retirement.trans unretired, .inl (held.2.manifest.trans found)⟩
  | some manifest =>
    refine Keeps.bind Keeps.check fun _ => Keeps.bind (Keeps.bind
      (read_keeps fun _ met => met.2.2.1) fun record => Keeps.ite (fun released => ?_) fun _ => ?_)
      fun _ => Keeps.pure fun _ _ met => met
    · refine Keeps.pure ?_
      rintro s _ ⟨live, _, _, holding⟩
      have held := holding.of_live live
      exact live.holding ⟨held.epoch, held.retirement.trans unretired, .inr released⟩
    · refine (update_keeps (fun _ met => met.2.2.2.1) ?_).returns ?_
      · rintro s current next ⟨_, _, _, holding⟩ live passed
        obtain rfl := Except.ok.inj passed
        have held := holding.of_live live
        exact .release (by rw [held.manifest, found]; rfl)
      · rintro next _ _ ⟨live, before, current, _, was, ⟨_, _, _, holding⟩, passed, rfl⟩
        obtain rfl := Except.ok.inj passed
        have held := holding.of_live was
        exact live.holding ⟨held.epoch, held.retirement.trans unretired, .inr rfl⟩

theorem reclaimed_ok {request : ReleasedHistoryRequest} {lease : LeaseOwnership} {domain : Domain}
    {through completed : OperationId} {t : ReleasedTurns} {next : Record}
    (passed : reclaimed files request lease domain through t record = .ok (next, completed)) :
    reclaim files record t.boot domain through lease.revision request.reportingEpoch =
      .ok (next, completed) := by
  obtain ⟨_, reclaimed, passed⟩ := bind_ok.mp passed
  obtain ⟨_, passed⟩ := seq_ok.mp passed
  obtain ⟨_, passed⟩ := seq_ok.mp passed
  obtain rfl := pure_ok.mp passed
  exact mapError_ok.mp reclaimed

theorem retireReleasedHistory_keeps {request : ReleasedHistoryRequest} {lease : LeaseOwnership}
    {domain : Domain} {through : OperationId} {t : ReleasedTurns}
    (asked : request.domain = some domain) :
    Keeps (Reached commands files fences origin)
      (fun s => s.up = true ∧ s.epoch = request.reportingEpoch)
      (retireReleasedHistory files o request lease domain through t)
      (fun observation => Told (.reclaimed observation)) := by
  refine Keeps.bind Keeps.check fun _ => Keeps.bind (read_keeps fun _ met => met.2.1) fun record =>
    Keeps.bind Keeps.check fun _ => Keeps.given (fun _ _ met => met.1) fun fenced => ?_
  have start : ∀ s, Live s record → s.epoch = request.reportingEpoch →
      Holding (Unretired record request.reportingEpoch) s := fun s live epoch =>
    live.holding ⟨epoch, rfl, rfl⟩
  refine Keeps.bind ((observeEnded_keeps (ensure_ok.mp fenced).2).strengthen
    fun s _ met => start s met.2.1 met.2.2.2.2) fun seen => ?_
  refine Keeps.bind Keeps.check fun _ => Keeps.bind Keeps.check fun _ =>
    Keeps.bind (edit_keeps (fun _ met => met.2.2.1) ?_) fun completed => Keeps.pure ?_
  · rintro s current next completed ⟨_, _, holding⟩ live passed
    obtain ⟨epoch, unretired, ended⟩ := holding.of_live live
    exact .reclaim unretired ended (epoch ▸ reclaimed_ok passed)
  · rintro _ _ ⟨before, current, next, _, live, _, passed, rfl⟩
    obtain ⟨_, _, _, _, _, _, rfl⟩ := reclaim_ok (reclaimed_ok passed)
    exact ⟨_, live.store, domain, asked, _, Record.setReleasedSlot_releasedSlot, rfl⟩

/-! ### Archiving output -/

theorem decode_ok {request : OutputRequest} {now : ℤ} {ticket : OutputTicket}
    {plans : Option OutputPlans} (passed : decode request now = .ok (ticket, plans)) :
    0 < request.publicationRevision ∧ request.ticket = some ticket ∧ ticket.validate = .ok () := by
  obtain ⟨claim, passed⟩ := seq_ok.mp passed
  obtain ⟨given, present, passed⟩ := bind_ok.mp passed
  obtain ⟨valid, passed⟩ := seq_ok.mp passed
  obtain ⟨_, passed⟩ := seq_ok.mp passed
  have same : given = ticket := by
    cases planned : request.plans with
    | none =>
      rw [planned] at passed
      exact (Prod.mk.inj (pure_ok.mp passed)).1
    | some plans =>
      rw [planned] at passed
      obtain ⟨_, passed⟩ := seq_ok.mp passed
      exact (Prod.mk.inj (pure_ok.mp passed)).1
  subst same
  exact ⟨(ensure_ok.mp claim).1, okOr_ok.mp present, mapError_ok.mp valid⟩

theorem outputSetup_keeps {request : OutputRequest} {t : OutputTurns} :
    Keeps (Reached commands files fences origin) (fun s => s.up = true) (outputSetup request t)
      (fun _ _ => True) := by
  refine Keeps.bind Keeps.check fun decoded => Keeps.given (fun _ _ met => met.1) fun passed => ?_
  obtain ⟨positive, _, valid⟩ := decode_ok passed
  refine Keeps.bind (update_keeps (fun _ met => met.2) fun _ _ _ _ _ passed =>
    .outputPrepared positive valid passed) fun _ => ?_
  exact Keeps.bind Keeps.check fun _ => Keeps.pure fun _ _ _ => trivial

theorem outputFinish_keeps {request : OutputRequest} {plans : OutputPlans} {t : OutputTurns} :
    Keeps (Reached commands files fences origin) (fun s => s.up = true) (outputFinish request plans t)
      (fun _ _ => True) := by
  refine Keeps.bind Keeps.check fun decoded => Keeps.bind
    (update_keeps (fun _ met => met.2) fun _ _ _ _ _ passed => .outputPlanned passed) fun _ => ?_
  exact Keeps.bind Keeps.check fun _ => Keeps.pure fun _ _ _ => trivial

/-! ### Fencing an allocation -/

theorem fenceAllocation_keeps {request : AllocationRetirement.Request} {t : FenceTurns} :
    Keeps (Reached commands files fences origin)
      (fun s => s.up = true ∧ request.intent.permit.allocation = s.allocation)
      (fenceAllocation request t) (fun _ _ => True) := by
  refine Keeps.bind Keeps.get fun read => Keeps.bind Keeps.check fun _ =>
    Keeps.given (fun _ _ met => met.1) fun registered => Keeps.bind Keeps.check fun _ =>
    Keeps.bind Keeps.check fun _ => Keeps.given (fun _ _ met => met.1) fun valid =>
    Keeps.bind (Keeps.journal Reached.durable) fun current => Keeps.bind Keeps.check fun _ =>
    Keeps.bind Keeps.check fun next => ?_
  obtain ⟨_, intent, host⟩ := ensure_ok.mp registered
  refine Keeps.bind (Keeps.save Reached.durable ?_) fun _ => ?_
  · rintro s reached ⟨passed, _, rfl, unpoisoned, _, _, _, rfl, up, allocation⟩
    match found : read.record with
    | some record =>
      rw [found] at passed
      have live : Live read record := ⟨up, unpoisoned, found⟩
      exact reached.tail (.change live (.freeze intent (mapError_ok.mp valid) ⟨_, passed⟩))
    | none =>
      rw [found] at passed
      exact reached.tail (.insertFenced up unpoisoned found allocation host intent
        (mapError_ok.mp valid) ⟨_, passed⟩)
  · exact Keeps.bind Keeps.check fun _ => Keeps.bind Keeps.check fun _ =>
      Keeps.check.returns fun _ _ _ _ => trivial

end
end HudsonSandbox.Host
