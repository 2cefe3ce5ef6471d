import HudsonSandbox.Host.Served

/-!
# Runs of a host are sequences of moves

What a waiting request was checked for when it arrived is still so when it is served: a host that
restarts forgets every request, and no save takes back a manifest.
-/

namespace HudsonSandbox.Host
open Checked LiveOutput GuestModel Command History SupervisorFiles Supervisor Output Effect Run
  Files

section
variable {commands : CommandEncoding} {files : FileEncoding} {fences : OperationId → Prop}
  {origin : Host} {o : Ownership}

/-! ### Arrivals -/

theorem arriveExecute_keeps {request : CommandRequest} {t : Arrival} :
    Keeps (Reached commands files fences origin)
      (fun s => s.up = true ∧ request.ownership.map (·.allocationId) = some s.allocation)
      (arriveExecute commands request t) (fun w s => Sound commands files s w) := by
  refine Keeps.bind (owner_keeps fun _ met => met.2) fun o => Keeps.bind Keeps.check fun command =>
    Keeps.bind Keeps.check fun _ => Keeps.bind Keeps.check fun _ =>
    Keeps.given (fun _ _ met => met.1) fun bounded => Keeps.bind Keeps.certain fun digest =>
    Keeps.given (fun _ _ met => met.1) fun digested => ?_
  obtain ⟨operation, limit⟩ := ensure_ok.mp bounded
  have gated : Keeps (Reached commands files fences origin) (fun s => s.up = true ∧ Owned s o)
      (commandGate o t) (fun _ s => s.up = true ∧ Owned s o) :=
    commandGate_keeps (fun _ met => met.1) (fun _ met => met.2)
      fun _ record met => ⟨met.1, met.2.store record⟩
  refine Keeps.bind (gated.strengthen ?_) fun _ => Keeps.pure ?_
  · rintro s _ ⟨_, _, _, _, _, owned, up, _⟩
    exact ⟨up, owned⟩
  · exact fun _ _ met => ⟨met.2, operation, limit, digested⟩

theorem arriveInspect_keeps {request : CommandInspection} {cancel : Bool} {t : Arrival} :
    Keeps (Reached commands files fences origin)
      (fun s => s.up = true ∧ request.ownership.map (·.allocationId) = some s.allocation)
      (arriveInspect request cancel t) (fun w s => Sound commands files s w) := by
  refine Keeps.bind (owner_keeps fun _ met => met.2) fun o => Keeps.bind Keeps.check fun digest => ?_
  have gated : Keeps (Reached commands files fences origin) (fun s => s.up = true ∧ Owned s o)
      (commandGate o t) (fun _ s => s.up = true ∧ Owned s o) :=
    commandGate_keeps (fun _ met => met.1) (fun _ met => met.2)
      fun _ record met => ⟨met.1, met.2.store record⟩
  refine Keeps.bind (gated.strengthen ?_) fun _ => Keeps.pure fun _ _ met => met.2
  rintro s _ ⟨_, _, owned, up, _⟩
  exact ⟨up, owned⟩

theorem arriveFile_keeps {request : FileRequest} {action : FileAction} {t : Arrival} :
    Keeps (Reached commands files fences origin)
      (fun s => s.up = true ∧ request.ownership.map (·.allocationId) = some s.allocation)
      (arriveFile files request action t) (fun w s => Sound commands files s w) := by
  refine Keeps.bind Keeps.check fun _ => Keeps.bind (owner_keeps fun _ met => met.2.2) fun o =>
    Keeps.bind Keeps.check fun upload => Keeps.bind Keeps.check fun _ =>
    Keeps.bind Keeps.check fun _ => Keeps.given (fun _ _ met => met.1) fun matched =>
    Keeps.bind Keeps.check fun _ => Keeps.bind Keeps.certain fun digest =>
    Keeps.given (fun _ _ met => met.1) fun digested => ?_
  have gated : Keeps (Reached commands files fences origin) (fun s => s.up = true ∧ Owned s o)
      (gate o t) (fun _ s => s.up = true ∧ Owned s o) :=
    gate_keeps (fun _ met => met.1) (fun _ met => met.2)
      fun _ record met => ⟨met.1, met.2.store record⟩
  refine Keeps.bind (gated.strengthen ?_) fun _ => Keeps.pure ?_
  · rintro s _ ⟨_, _, _, _, _, _, owned, _, up, _⟩
    exact ⟨up, owned⟩
  · exact fun _ _ met => ⟨met.2, ensure_ok.mp matched, digested⟩

theorem authorizeCreate_true {required authorized : Bool} {request : CreateRequest}
    (passed : authorizeCreate required o request authorized = .ok ⟨⟩) :
    authorizeCreate required o request true = .ok ⟨⟩ := by
  unfold authorizeCreate at passed ⊢
  cases required with
  | false => exact passed
  | true =>
    obtain ⟨permit, found, passed⟩ := bind_ok.mp passed
    obtain ⟨owned, _⟩ := seq_ok.mp passed
    exact bind_ok.mpr ⟨permit, found, seq_ok.mpr ⟨owned, rfl⟩⟩

theorem arriveCreate_keeps {request : CreateRequest} {authorized : Bool} {t : Arrival} :
    Keeps (Reached commands files fences origin)
      (fun s => s.up = true ∧ request.ownership.map (·.allocationId) = some s.allocation)
      (arriveCreate request authorized t) (fun w s => Sound commands files s w) := by
  refine Keeps.bind (owner_keeps fun _ met => met.2) fun o =>
    Keeps.given (fun _ _ met => met.1) fun given => Keeps.bind Keeps.get fun read =>
    Keeps.bind Keeps.check fun _ => ?_
  have gated : Keeps (Reached commands files fences origin) (fun s => s.up = true ∧ Owned s o ∧
        authorizeCreate s.launchPermitsRequired o request true = .ok ⟨⟩) (gate o t)
      (fun _ s => s.up = true ∧ Owned s o ∧
        authorizeCreate s.launchPermitsRequired o request true = .ok ⟨⟩) :=
    gate_keeps (fun _ met => met.1) (fun _ met => met.2.1)
      fun _ record met => ⟨met.1, met.2.1.store record, met.2.2⟩
  refine Keeps.bind (gated.strengthen ?_) fun _ => Keeps.pure ?_
  · rintro s _ ⟨passed, rfl, _, owned, up, _⟩
    exact ⟨up, owned, authorizeCreate_true passed⟩
  · exact fun _ _ met => ⟨met.2.1, given, met.2.2⟩

theorem arriveLifecycle_keeps {ownership : Option Ownership} {stop : Bool} {t : Arrival} :
    Keeps (Reached commands files fences origin)
      (fun s => s.up = true ∧ ownership.map (·.allocationId) = some s.allocation)
      (arriveLifecycle ownership stop t) (fun w s => Sound commands files s w) := by
  refine Keeps.bind (owner_keeps fun _ met => met.2) fun o => ?_
  have gated : Keeps (Reached commands files fences origin) (fun s => s.up = true ∧ Owned s o)
      (gate o t) (fun _ s => s.up = true ∧ Owned s o) :=
    gate_keeps (fun _ met => met.1) (fun _ met => met.2)
      fun _ record met => ⟨met.1, met.2.store record⟩
  refine Keeps.bind (gated.strengthen ?_) fun _ => Keeps.pure fun _ _ met => met.2
  rintro s _ ⟨_, owned, up, _⟩
  exact ⟨up, owned⟩

theorem arriveLease_keeps {ownership : Option LeaseOwnership} {expires : Option ℤ}
    {generated : OperationId} {t : Arrival} :
    Keeps (Reached commands files fences origin)
      (fun s => s.up = true ∧ ownership.map (·.allocationId) = some s.allocation)
      (arriveLease ownership expires generated t) (fun w s => Sound commands files s w) := by
  refine Keeps.bind Keeps.check fun lease => Keeps.bind (owner_keeps ?_) fun o =>
    Keeps.bind Keeps.check fun _ => ?_
  · rintro s ⟨given, _, same⟩
    rw [okOr_ok.mp given] at same
    exact same
  · refine Keeps.bind (Keeps.journal Reached.durable) fun _ => Keeps.bind Keeps.check fun _ =>
      Keeps.pure ?_
    rintro s _ ⟨_, _, _, _, _, owned, _⟩
    exact owned

theorem arrivePrevious_keeps {request : PreviousAllocationRequest} {t : Arrival} :
    Keeps (Reached commands files fences origin)
      (fun s => s.up = true ∧ request.ownership.map (·.allocationId) = some s.allocation)
      (arrivePrevious request t) (fun w s => Sound commands files s w) := by
  refine Keeps.bind Keeps.check fun original => Keeps.bind Keeps.get fun read =>
    Keeps.bind Keeps.check fun _ => Keeps.given (fun _ _ met => met.1) fun epochs =>
    Keeps.bind (owner_keeps ?_) fun o => ?_
  · rintro s ⟨_, _, given, _, same⟩
    rw [okOr_ok.mp given] at same
    exact same
  · obtain ⟨reported, _, older⟩ := ensure_ok.mp epochs
    refine Keeps.bind (Keeps.journal Reached.durable) fun _ => Keeps.bind Keeps.check fun _ =>
      Keeps.bind Keeps.check fun _ => Keeps.pure ?_
    rintro s _ ⟨_, _, _, _, given, owned, _, rfl, _⟩
    obtain rfl := Option.some.inj given
    exact ⟨owned.host, owned.allocation, reported ▸ older⟩

theorem arriveReconcile_keeps {running : Bool} {t : Arrival} :
    Keeps (Reached commands files fences origin) (fun s => s.up = true) (arriveReconcile running t)
      (fun w s => Sound commands files s w) := by
  refine Keeps.bind (read_keeps fun _ up => up) fun record => Keeps.bind Keeps.check fun _ =>
    Keeps.pure ?_
  rintro s _ ⟨passed, live, _⟩
  obtain ⟨_, owner, _⟩ := ensure_ok.mp passed
  exact ⟨owner, fun _ => ⟨record, live.found, owner⟩⟩

theorem arriveHistory_keeps {request : HistoryRequest} {generated : OperationId} {t : Arrival} :
    Keeps (Reached commands files fences origin)
      (fun s => s.up = true ∧ request.ownership.map (·.allocationId) = some s.allocation)
      (arriveHistory request generated t) (fun w s => Sound commands files s w) := by
  refine Keeps.bind Keeps.check fun lease => Keeps.bind (owner_keeps ?_) fun o =>
    Keeps.bind Keeps.check fun _ => ?_
  · rintro s ⟨given, _, same⟩
    rw [okOr_ok.mp given] at same
    exact same
  · refine Keeps.bind (Keeps.journal Reached.durable) fun _ => Keeps.bind Keeps.check fun _ =>
      Keeps.pure ?_
    rintro s _ ⟨_, _, _, _, same, owned, _⟩
    exact ⟨owned, generated, (Option.some.inj same).symm⟩

theorem arriveReleasedHistory_keeps {request : ReleasedHistoryRequest} {generated : OperationId}
    {t : Arrival} :
    Keeps (Reached commands files fences origin)
      (fun s => s.up = true ∧ request.ownership.map (·.allocationId) = some s.allocation)
      (arriveReleasedHistory request generated t) (fun w s => Sound commands files s w) := by
  refine Keeps.bind Keeps.check fun lease => Keeps.bind Keeps.get fun read =>
    Keeps.bind Keeps.check fun _ => Keeps.given (fun _ _ met => met.1) fun epochs =>
    Keeps.bind (owner_keeps ?_) fun o => Keeps.bind Keeps.check fun domain =>
    Keeps.given (fun _ _ met => met.1) fun asked => ?_
  · rintro s ⟨_, _, given, _, same⟩
    rw [okOr_ok.mp given] at same
    exact same
  · obtain ⟨reported, positive, older⟩ := ensure_ok.mp epochs
    refine Keeps.bind Keeps.check fun _ => Keeps.bind Keeps.check fun _ =>
      Keeps.bind (Keeps.journal Reached.durable) fun _ => Keeps.bind Keeps.check fun _ =>
      Keeps.pure ?_
    rintro s _ ⟨_, _, _, _, _, _, given, owned, _, rfl, _⟩
    obtain rfl := Option.some.inj given
    exact ⟨okOr_ok.mp asked, owned.host, owned.allocation, rfl, reported, positive, reported ▸ older,
      owned.revision⟩

theorem arriveOutput_keeps {request : OutputRequest} {plans : Option OutputPlans} {storage : Bool}
    {t : Arrival} :
    Keeps (Reached commands files fences origin) (fun s => s.up = true) (arriveOutput request plans storage t)
      (fun w s => Sound commands files s w) := by
  refine Keeps.bind Keeps.check fun decoded => Keeps.given (fun _ _ met => met.1) fun passed =>
    Keeps.bind Keeps.check fun _ => Keeps.bind (Keeps.journal Reached.durable) fun read =>
    Keeps.bind Keeps.check fun _ => Keeps.bind Keeps.check fun _ => ?_
  obtain ⟨_, asked, _⟩ := decode_ok passed
  cases plans with
  | none =>
    refine Keeps.pure ?_
    rintro s _ ⟨_, host, rfl, _⟩
    exact ⟨decoded.1, asked, ensure_ok.mp host⟩
  | some plans =>
    refine Keeps.pure ?_
    rintro s _ ⟨_, host, rfl, _⟩
    exact ⟨decoded.1, asked, ensure_ok.mp host⟩

theorem arrive_keeps {request : Request} {t : Arrival} :
    Keeps (Reached commands files fences origin)
      (fun s => s.up = true ∧ request.allocation s.allocation = some s.allocation)
      (arrive commands files request t) (fun w s => Sound commands files s w) := by
  cases request with
  | execute request => exact arriveExecute_keeps
  | inspectCommand request cancel => exact arriveInspect_keeps
  | file request action => exact arriveFile_keeps
  | create request authorized => exact arriveCreate_keeps
  | inspect ownership stop => exact arriveLifecycle_keeps
  | retireHistory request generated => exact arriveHistory_keeps
  | retireReleasedHistory request generated => exact arriveReleasedHistory_keeps
  | output request plans storage => exact arriveOutput_keeps.strengthen fun _ _ met => met.1
  | lease ownership expires generated => exact arriveLease_keeps
  | previous request => exact arrivePrevious_keeps
  | reconcile running => exact arriveReconcile_keeps.strengthen fun _ _ met => met.1
  | fenceAllocation request => exact Keeps.pure fun _ _ met => Option.some.inj met.2

/-! ### Serving -/

/-- The operation that a command request may fence. -/
def Waiting.command : Waiting → Option OperationId
  | .execute o _ _ | .inspectOrCancel o _ _ => some o.operationId
  | _ => none

/-- The operation that a command request may fence in this step. -/
def Event.command : Event → Option OperationId
  | .serve waiting _ => waiting.command
  | _ => none

theorem serve_keeps {waiting : Waiting} {t : waiting.Turns}
    (allowed : ∀ id ∈ waiting.command, fences id) :
    Keeps (Reached commands files fences origin) (fun s => s.up = true ∧ Sound commands files s waiting)
      (serve commands files waiting t) (fun answer s => ∀ fact ∈ answer, Told fact s) := by
  have silent : ∀ {s : Host}, ∀ fact ∈ (none : Option Fact), Told fact s :=
    fun _ absent => absurd absent (by simp)
  have told : ∀ {s : Host} {fact : Fact}, Told fact s → ∀ f ∈ some fact, Told f s :=
    fun backed _ same => Option.some.inj same ▸ backed
  cases waiting with
  | execute o command digest =>
    refine Keeps.given (fun _ _ met => met.2.2) fun sound => ?_
    refine Keeps.bind ((executeCommand_keeps (allowed _ rfl) sound.1 sound.2.1).strengthen fun _ _ met => met.1)
      fun _ => Keeps.pure fun _ _ answered => told answered
  | inspectOrCancel o digest cancel =>
    exact Keeps.bind ((inspectOrCancel_keeps (allowed _ rfl)).strengthen fun _ _ met => met.1)
      fun _ => Keeps.pure fun _ _ answered => told answered
  | file o upload digest action =>
    refine Keeps.given (fun _ _ met => met.2.2) fun sound => ?_
    exact Keeps.bind ((fileSync_keeps sound.1).strengthen fun _ _ met => met.1)
      fun _ => Keeps.pure fun _ _ _ => silent
  | create o request =>
    exact Keeps.bind (createSync_keeps.strengthen fun _ _ met => ⟨met.1, met.2.1, met.2.2.2⟩)
      fun _ => Keeps.pure fun _ _ _ => silent
  | inspect o stop =>
    exact Keeps.bind inspectSync_keeps fun _ => Keeps.pure fun _ _ _ => silent
  | retireHistory o request lease barrier =>
    exact Keeps.bind (retireHistory_keeps.strengthen fun _ _ met => met.1)
      fun _ => Keeps.pure fun _ _ backed => told backed
  | retireReleasedHistory o request lease domain through =>
    refine Keeps.given (fun _ _ met => met.2.1) fun asked => ?_
    exact Keeps.bind ((retireReleasedHistory_keeps asked).strengthen
      fun _ _ met => ⟨met.1, met.2.2.2.2.2.1.symm⟩) fun _ => Keeps.pure fun _ _ backed => told backed
  | prepareOutput request =>
    exact Keeps.bind (outputSetup_keeps.strengthen fun _ _ met => met.1)
      fun _ => Keeps.pure fun _ _ _ => silent
  | finishOutput request plans =>
    exact Keeps.bind (outputFinish_keeps.strengthen fun _ _ met => met.1)
      fun _ => Keeps.pure fun _ _ _ => silent
  | lease o lease expires =>
    exact Keeps.bind (leaseSync_keeps.strengthen fun _ _ met => met.1)
      fun _ => Keeps.pure fun _ _ _ => silent
  | previous o =>
    exact Keeps.bind (previousAllocation_keeps.strengthen fun _ _ met => met.1)
      fun _ => Keeps.pure fun _ _ _ => silent
  | reconcile record =>
    exact Keeps.bind (reconcile_keeps.strengthen fun _ _ met => ⟨met.1, met.2.2⟩)
      fun _ => Keeps.pure fun _ _ _ => silent
  | fenceAllocation request =>
    exact Keeps.bind fenceAllocation_keeps fun _ => Keeps.pure fun _ _ _ => silent

/-! ### What waiting requests rely on -/

theorem Change.manifest {s : Host} {record next : Record}
    (change : Change commands files fences s record next) (owner : record.manifest.isSome = true) :
    next.manifest.isSome = true := by
  cases change with
  | fenceCommand _ held passed =>
    obtain ⟨_, _, _, rfl⟩ := fenced_ok passed
    exact owner
  | fenceFile retained passed =>
    obtain ⟨_, _, _, rfl⟩ := fenced_ok passed
    exact owner
  | fenceLifecycle marked owned passed =>
    obtain ⟨_, _, _, rfl⟩ := fenced_ok passed
    exact owner
  | create => rfl
  | lease passed =>
    obtain ⟨_, rfl⟩ := leased_ok passed
    exact owner
  | floor => simpa using owner
  | complete passed =>
    obtain ⟨_, _, _, _, _, rfl⟩ := complete_ok passed
    simpa using owner
  | reclaim _ _ passed =>
    obtain ⟨_, _, _, _, _, _, rfl⟩ := reclaim_ok passed
    simpa using owner
  | outputPrepared _ _ passed =>
    obtain ⟨_, rfl⟩ := outputPrepared_ok passed
    exact owner
  | outputPlanned passed =>
    obtain ⟨_, rfl⟩ := outputPlanned_ok passed
    exact owner
  | freeze _ _ passed =>
    obtain ⟨_, passed⟩ := passed
    obtain ⟨_, rfl⟩ := frozen_ok passed
    exact owner
  | _ => exact owner

/-- Every waiting request is still what it was checked for. -/
def AllSound (commands : CommandEncoding) (files : FileEncoding) (s : Host) : Prop :=
  ∀ w ∈ s.waiting, Sound commands files s w

/-- A request is sound for any host of the same identity and epoch that still has its manifest. -/
theorem Sound.transfer {s next : Host} {w : Waiting} (sound : Sound commands files s w)
    (host : next.host = s.host) (epoch : next.epoch = s.epoch)
    (allocation : next.allocation = s.allocation)
    (permits : next.launchPermitsRequired = s.launchPermitsRequired)
    (owner : next.poisoned = false → s.poisoned = false ∧ ∀ record, s.record = some record →
      record.manifest.isSome = true →
        ∃ current, next.record = some current ∧ current.manifest.isSome = true) :
    Sound commands files next w := by
  have owned : ∀ {o}, Owned s o → Owned next o := fun held =>
    ⟨host ▸ held.host, epoch ▸ held.epoch, allocation ▸ held.allocation, held.generation,
      held.revision⟩
  cases w with
  | execute => exact ⟨owned sound.1, sound.2⟩
  | file => exact ⟨owned sound.1, sound.2⟩
  | create => exact ⟨owned sound.1, sound.2.1, permits ▸ sound.2.2⟩
  | retireHistory => exact ⟨owned sound.1, sound.2⟩
  | retireReleasedHistory =>
    obtain ⟨asked, h, a, same, reported, positive, older, revision⟩ := sound
    exact ⟨asked, host ▸ h, allocation ▸ a, same, epoch ▸ reported, positive, epoch ▸ older, revision⟩
  | prepareOutput =>
    obtain ⟨ticket, asked, h⟩ := sound
    exact ⟨ticket, asked, host ▸ h⟩
  | finishOutput =>
    obtain ⟨ticket, asked, h⟩ := sound
    exact ⟨ticket, asked, host ▸ h⟩
  | previous =>
    obtain ⟨h, a, older⟩ := sound
    exact ⟨host ▸ h, allocation ▸ a, epoch ▸ older⟩
  | reconcile =>
    refine ⟨sound.1, fun unpoisoned => ?_⟩
    obtain ⟨before, keeps⟩ := owner unpoisoned
    obtain ⟨record, found, present⟩ := sound.2 before
    exact keeps record found present
  | fenceAllocation => exact sound.trans allocation.symm
  | inspectOrCancel => exact owned sound
  | inspect => exact owned sound
  | lease => exact owned sound

theorem Move.sound {s next : Host} (move : Move commands files fences s next)
    (sound : AllSound commands files s) : AllSound commands files next := by
  have same : ∀ {record : Option Record}, s.record = record →
      ∀ r, s.record = some r → r.manifest.isSome = true →
        ∃ current, s.record = some current ∧ current.manifest.isSome = true :=
    fun _ r found owner => ⟨r, found, owner⟩
  cases move with
  | poison => exact fun w waits => (sound w waits).transfer rfl rfl rfl rfl fun calm => by cases calm
  | lost => exact fun w waits => (sound w waits).transfer rfl rfl rfl rfl fun calm => by cases calm
  | crash => exact fun _ waits => absurd waits (List.not_mem_nil)
  | reopen => exact fun w waits => (sound w waits).transfer rfl rfl rfl rfl fun calm => ⟨calm, same rfl⟩
  | start => exact fun _ waits => absurd waits (List.not_mem_nil)
  | wait waiting sound =>
    exact fun w waits => (sound w waits).transfer rfl rfl rfl rfl fun calm => ⟨calm, same rfl⟩
  | mark => exact fun w waits => (sound w waits).transfer rfl rfl rfl rfl fun calm => ⟨calm, same rfl⟩
  | insert up unpoisoned missing owned =>
    refine fun w waits => (sound w waits).transfer rfl rfl rfl rfl fun calm => ⟨calm, ?_⟩
    exact fun r found => by cases missing.symm.trans found
  | insertFenced up unpoisoned missing =>
    refine fun w waits => (sound w waits).transfer rfl rfl rfl rfl fun calm => ⟨calm, ?_⟩
    exact fun r found => by cases missing.symm.trans found
  | change live change =>
    refine fun w waits => (sound w waits).transfer rfl rfl rfl rfl fun calm => ⟨calm, ?_⟩
    exact fun r found owner => ⟨_, rfl, change.manifest (live.unique ⟨live.up, calm, found⟩ ▸ owner)⟩
  | send live intends =>
    refine fun w waits => (sound w waits).transfer rfl rfl rfl rfl fun calm => ⟨calm, ?_⟩
    exact fun r found owner => ⟨_, rfl, live.unique ⟨live.up, calm, found⟩ ▸ owner⟩
  | askBegin => exact fun w waits => (sound w waits).transfer rfl rfl rfl rfl fun calm => ⟨calm, same rfl⟩
  | askInspect => exact fun w waits => (sound w waits).transfer rfl rfl rfl rfl fun calm => ⟨calm, same rfl⟩
  | askWrite => exact fun w waits => (sound w waits).transfer rfl rfl rfl rfl fun calm => ⟨calm, same rfl⟩
  | askCommit live =>
    refine fun w waits => (sound w waits).transfer rfl rfl rfl rfl fun calm => ⟨calm, ?_⟩
    exact fun r found owner => ⟨_, rfl, live.unique ⟨live.up, calm, found⟩ ▸ owner⟩
  | askAbort live =>
    refine fun w waits => (sound w waits).transfer rfl rfl rfl rfl fun calm => ⟨calm, ?_⟩
    exact fun r found owner => ⟨_, rfl, live.unique ⟨live.up, calm, found⟩ ▸ owner⟩
  | answer => exact fun w waits => (sound w waits).transfer rfl rfl rfl rfl fun calm => ⟨calm, same rfl⟩

theorem Reached.sound {s : Host} (reached : Reached commands files fences origin s)
    (start : AllSound commands files origin) : AllSound commands files s := by
  induction reached with
  | refl => exact start
  | tail _ move ih => exact move.sound ih

/-! ### Steps and runs -/

theorem start_moves {s : Host} {epoch : ℤ} {accepted : Bool} {disk : Disk}
    (reached : Reached commands files fences origin s) (down : ¬s.up = true) :
    Reached commands files fences origin (s.start epoch accepted disk) := by
  unfold start
  split
  next => exact reached
  next record passed =>
    have down : s.up = false := by simpa using down
    cases disk with
    | written => exact reached.tail (.start down passed)
    | uncertain => exact reached.tail (.reopen down passed)
    | lost => exact reached
    | refused => exact reached
    | crashed durable =>
      cases durable with
      | true => exact reached.tail (.reopen down passed)
      | false => exact reached

theorem afterArrival_moves {result : EStateM.Result Failure Host Waiting}
    (start : AllSound commands files origin)
    (kept : Outcome (fun w s => Reached commands files fences origin s ∧ Sound commands files s w)
      (fun _ s => Reached commands files fences origin s) result) :
    Reached commands files fences origin (afterArrival result) := by
  cases result with
  | error _ next => exact kept
  | ok waiting next =>
    obtain ⟨reached, arrived⟩ := kept
    refine reached.tail (.wait _ fun w waits => ?_)
    obtain rfl | waits := List.mem_cons.mp waits
    · exact arrived
    · exact reached.sound start w waits

theorem afterServe_moves {result : EStateM.Result Failure Host (Option Fact)}
    (kept : Outcome (fun answer s => Reached commands files fences origin s ∧ ∀ fact ∈ answer, Told fact s)
      (fun _ s => Reached commands files fences origin s) result) :
    Reached commands files fences origin (afterServe result) := by
  cases result with
  | error _ next => exact kept
  | ok answer next =>
    obtain ⟨reached, told⟩ := kept
    cases answer with
    | none => exact reached
    | some fact =>
      obtain ⟨record, live, backed⟩ := told fact rfl
      exact reached.tail (.answer live backed)

theorem step_moves {s : Host} (event : Event) (allowed : ∀ id ∈ event.command, fences id)
    (start : AllSound commands files origin)
    (reached : Reached commands files fences origin s) :
    Reached commands files fences origin (step commands files s event) := by
  cases event with
  | arrive request t =>
    by_cases met : s.up = true ∧ request.allocation s.allocation = some s.allocation
    · rw [step, if_pos met]
      exact afterArrival_moves start (arrive_keeps s ⟨reached, met⟩)
    · rw [step, if_neg met]
      exact reached
  | serve waiting t =>
    by_cases met : s.up = true ∧ waiting ∈ s.waiting
    · rw [step, if_pos met]
      have sound := reached.sound start
      have taken := reached.tail (.wait (s.waiting.erase waiting)
        fun w waits => sound w (List.mem_of_mem_erase waits))
      refine afterServe_moves (serve_keeps allowed _ ⟨taken, met.1, ?_⟩)
      exact (sound waiting met.2).transfer rfl rfl rfl rfl
        fun calm => ⟨calm, fun r found owner => ⟨r, found, owner⟩⟩
    · rw [step, if_neg met]
      exact reached
  | poison =>
    by_cases up : s.up = true
    · rw [step, if_pos up]
      exact reached.tail .poison
    · rw [step, if_neg up]
      exact reached
  | crash => exact reached.tail .crash
  | start epoch accepted disk =>
    by_cases up : s.up = true
    · rw [step, if_pos up]
      exact reached
    · rw [step, if_neg up]
      exact start_moves reached up

theorem run_moves {s : Host} (events : List Event) (start : AllSound commands files s) :
    Reached commands files (fun _ => True) s (run (step commands files) s events) :=
  run_invariant (fun _ event reached => step_moves event (fun _ _ => trivial) start reached) .refl

end
end HudsonSandbox.Host
