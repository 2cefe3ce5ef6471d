import HudsonSandbox.Host.Deletion
import HudsonSandbox.Host.HistoryFloors

/-!
# A retired allocation stays frozen

Once a retirement is saved, every save of the record leaves what its scope covers as it was: a
request of another kind is refused, or it changes only what the scope does not read.
-/

namespace HudsonSandbox.Host
open Checked LiveOutput GuestModel Command History SupervisorFiles Supervisor Output Effect Run
  Files

section
variable {commands : CommandEncoding} {files : FileEncoding} {fences : OperationId → Prop}
  {s : Host} {record next last : Record} {request : AllocationRetirement.Request}
  {domain : Domain} {id : OperationId}

/-! ### What the scope covers -/

/-- A completed floor may be claimed again; its barrier and its completion stay. -/
def Renews (held next : Option Retirement) : Prop :=
  next = held ∨ ∃ r ∈ held, r.completed = true ∧ ∃ revision requestedThrough,
    r.revision ≤ revision ∧ next = some { r with revision, requestedThrough }

theorem Renews.trans {a b c : Option Retirement} (first : Renews a b) (second : Renews b c) :
    Renews a c := by
  obtain rfl | ⟨r, found, completed, revision, through, newer, rfl⟩ := first
  · exact second
  · obtain rfl | ⟨r', found', _, revision', through', newer', rfl⟩ := second
    · exact .inr ⟨r, found, completed, revision, through, newer, rfl⟩
    · obtain rfl := Option.some.inj (Option.mem_def.mp found')
      exact .inr ⟨r, found, completed, revision', through', newer.trans newer', rfl⟩

/-- Every field that the scope covers is as it was. -/
structure Kept (record next : Record) : Prop where
  owner : next.owner = record.owner
  create : next.create = record.create
  manifest : next.manifest = record.manifest
  dispatched : next.dispatched = record.dispatched
  stopped : next.stopped = record.stopped
  commands : next.commands = record.commands
  files : next.files = record.files
  archives : next.archives = record.archives
  released : ∀ domain, next.releasedSlot domain = record.releasedSlot domain
  floors : ∀ domain, Renews (record.slot domain) (next.slot domain)

theorem Kept.refl : Kept record record :=
  ⟨rfl, rfl, rfl, rfl, rfl, rfl, rfl, rfl, fun _ => rfl, fun _ => .inl rfl⟩

theorem Kept.trans (first : Kept record next) (second : Kept next last) : Kept record last where
  owner := second.owner.trans first.owner
  create := second.create.trans first.create
  manifest := second.manifest.trans first.manifest
  dispatched := second.dispatched.trans first.dispatched
  stopped := second.stopped.trans first.stopped
  commands := second.commands.trans first.commands
  files := second.files.trans first.files
  archives := second.archives.trans first.archives
  released domain := (second.released domain).trans (first.released domain)
  floors domain := (first.floors domain).trans (second.floors domain)

theorem Kept.closure (kept : Kept record next) : closure next domain = closure record domain := by
  unfold Host.closure
  rw [kept.released domain]
  obtain same | ⟨r, found, _, revision, through, _, renewed⟩ := kept.floors domain
  · rw [same]
  · rw [renewed, Option.mem_def.mp found]
    simp [Option.filter]

theorem Kept.scope (kept : Kept record next) : scope next request = scope record request := by
  unfold Host.scope scopeDomain
  simp only [kept.owner, kept.create, kept.manifest, kept.dispatched, kept.stopped, kept.commands,
    kept.files, kept.archives, kept.closure]

theorem Kept.renewed {retirement : Retirement} {held : Retirement}
    (filed : Filed record) (found : record.slot domain = some held) (completed : held.completed = true)
    (barrier : retirement.barrier = held.barrier) (same : retirement.completed = held.completed)
    (newer : held.revision ≤ retirement.revision) :
    Kept record (record.setSlot retirement.barrier.domain (some retirement)) := by
  have home : retirement.barrier.domain = domain := barrier ▸ filed domain held found
  rw [home]
  refine ⟨?_, ?_, by simp, ?_, by simp, by simp, by simp, ?_, fun _ => by simp, fun other => ?_⟩
  · cases domain <;> rfl
  · cases domain <;> rfl
  · cases domain <;> rfl
  · cases domain <;> rfl
  · by_cases here : other = domain
    · subst here
      rw [Record.setSlot_slot]
      refine .inr ⟨held, found, completed, retirement.revision, retirement.requestedThrough, newer, ?_⟩
      rw [← barrier, ← same]
    · exact .inl (Record.setSlot_other here)

/-! ### Freezing -/

/-- The record is frozen under the request's intent, by the request or by a later claim on it. -/
structure Frozen (request : AllocationRetirement.Request) (record : Record) : Prop where
  stopped : record.stopped = true
  scope : scope record request = .ok ()
  claim : ∃ current, record.retirement = some current ∧ current.intent = request.intent ∧
    request.revision ≤ current.revision

/-- The scope reads only the intent of a request. -/
theorem scope_intent {other : AllocationRetirement.Request} (same : other.intent = request.intent) :
    Host.scope record other = Host.scope record request := by
  unfold Host.scope
  rw [same]

theorem Frozen.retired (frozen : Frozen request record) : record.retirement ≠ none := by
  obtain ⟨current, found, _⟩ := frozen.claim
  rw [found]
  exact Option.some_ne_none current

theorem Frozen.empty (frozen : Frozen request record) :
    record.commands.entries = [] ∧ record.files.entries = [] ∧ record.archives.entries = [] := by
  obtain ⟨_, passed⟩ := seq_ok.mp frozen.scope
  obtain ⟨_, passed⟩ := seq_ok.mp passed
  obtain ⟨_, passed⟩ := seq_ok.mp passed
  obtain ⟨consumers, _⟩ := seq_ok.mp passed
  exact ensure_ok.mp consumers

theorem absent_of_entries {V : Type} {map : Map V} (empty : map.entries = []) :
    map.lookup id = none := by
  rw [AList.lookup_eq_none, AList.mem_keys, AList.keys, empty]
  exact List.not_mem_nil

theorem Frozen.kept (frozen : Frozen request record) (kept : Kept record next)
    (same : next.retirement = record.retirement) : Frozen request next :=
  ⟨kept.stopped.trans frozen.stopped, kept.scope.trans frozen.scope, same ▸ frozen.claim⟩

theorem supersedes_ok {old : AllocationRetirement.Request} {epoch now : ℤ}
    (passed : supersedes request (some old) epoch now = .ok ⟨⟩) :
    request.intent = old.intent ∧ old.revision ≤ request.revision ∧
      (request.revision = old.revision → request = old) := by
  obtain ⟨valid, passed⟩ := seq_ok.mp passed
  obtain ⟨_, valid⟩ := seq_ok.mp (mapError_ok.mp valid)
  obtain ⟨_, valid⟩ := seq_ok.mp valid
  obtain ⟨intent, claim⟩ := seq_ok.mp valid
  have newer : ¬request.revision < old.revision := fun older =>
    ensure_ok.mp claim (.inr (.inl older))
  refine ⟨ensure_ok.mp intent, not_lt.mp newer, fun same => ?_⟩
  exact (ensure_ok.mp passed).resolve_left fun changed => changed same

/-- Freezing a record under a request freezes it under the request's intent. -/
theorem frozen_frozen {epoch now : ℤ} (passed : frozen request epoch now record = .ok next) :
    Frozen request next := by
  obtain ⟨settled, rfl⟩ := frozen_ok passed
  refine ⟨rfl, ?_, request, rfl, rfl, le_rfl⟩
  obtain ⟨owner, settled⟩ := seq_ok.mp settled
  obtain ⟨create, settled⟩ := seq_ok.mp settled
  obtain ⟨_, settled⟩ := seq_ok.mp settled
  exact seq_ok.mpr ⟨owner, seq_ok.mpr ⟨create, seq_ok.mpr ⟨ensure_ok.mpr (.inl rfl), settled⟩⟩⟩

/-- A later claim of the same intent changes nothing that the scope covers. -/
theorem Frozen.refreeze {other : AllocationRetirement.Request} {epoch now : ℤ}
    (held : Frozen request record) (passed : frozen other epoch now record = .ok next) :
    Kept record next ∧ Frozen request next := by
  obtain ⟨current, found, intent, newer⟩ := held.claim
  have after := frozen_frozen passed
  obtain ⟨_, settled⟩ := seq_ok.mp passed
  obtain ⟨superseded, saved⟩ := seq_ok.mp settled
  obtain rfl := pure_ok.mp saved
  rw [found] at superseded
  obtain ⟨same, later, _⟩ := supersedes_ok superseded
  have intent : other.intent = request.intent := same.trans intent
  refine ⟨⟨rfl, rfl, rfl, rfl, held.stopped.symm, rfl, rfl, rfl, fun _ => rfl, fun _ => .inl rfl⟩, rfl, ?_, ?_⟩
  · exact (scope_intent intent).symm.trans after.scope
  · exact ⟨other, rfl, intent, newer.trans later⟩

/-! ### One save -/

theorem Frozen.no_command (frozen : Frozen request record) {command : CommandRecord}
    (found : record.commands.lookup id = some command) : False := by
  rw [absent_of_entries frozen.empty.1] at found
  cases found

theorem Frozen.no_file (frozen : Frozen request record) {file : FileRecord}
    (held : FileHeld id record file) : False := by
  have found := held.found
  rw [absent_of_entries frozen.empty.2.1] at found
  cases found

/-- A floor that is prepared over a frozen record renews a completed one. -/
theorem Frozen.floor {requested : Barrier} {revision : ℤ} {retirement : Retirement}
    {boot : Option String} {client : Option Context} (frozen : Frozen request record)
    (filed : Filed record) (prepared : prepare files record requested revision = .ok retirement)
    (guest : historyClient record retirement boot = .ok client) :
    Kept record (record.setSlot retirement.barrier.domain (some retirement)) := by
  have completed : retirement.completed = true := by
    cases client with
    | none => exact historyClient_completed guest
    | some client => exact absurd frozen.stopped (by rw [historyClient_running guest]; decide)
  obtain ⟨_, _, _, _, revised, _, renewal⟩ := prepare_ok prepared
  obtain ⟨held, found, _, newer, _, barrier, same⟩ | ⟨_, fresh, _⟩ := renewal
  · exact Kept.renewed filed found (same ▸ completed) barrier same (revised ▸ newer)
  · cases completed.symm.trans fresh

theorem Change.frozen (change : Change commands files fences s record next) (filed : Filed record)
    (frozen : Frozen request record) : Kept record next ∧ Frozen request next := by
  have refuted {P : Prop} (unretired : record.retirement = none) : P :=
    absurd unretired frozen.retired
  have kept (kept : Kept record next) (same : next.retirement = record.retirement) :
      Kept record next ∧ Frozen request next := ⟨kept, frozen.kept kept same⟩
  cases change with
  | fenceCommand _ _ passed | fenceFile _ passed | fenceLifecycle _ _ passed =>
    exact refuted (fenced_ok passed).2.1
  | tombstone held => exact refuted (Record.check_ok.mp held.check).1
  | intend intends => exact refuted (Record.check_ok.mp intends.held.check).1
  | admitFile admits => exact refuted (Record.check_ok.mp admits.check).1
  | confirm found => exact (frozen.no_command found).elim
  | requestCommit held => exact (frozen.no_file held).elim
  | requestAbort held => exact (frozen.no_file held).elim
  | observeFile held => exact (frozen.no_file held).elim
  | create _ _ _ unretired => exact refuted unretired
  | dispatched _ unretired => exact refuted unretired
  | reclaim unretired => exact refuted unretired
  | outputPrepared _ _ passed => exact refuted (outputPrepared_unretired passed)
  | outputPlanned passed => exact refuted (outputPlanned_unretired passed)
  | complete _ running => exact absurd frozen.stopped (by rw [running]; decide)
  | stop =>
    exact kept ⟨rfl, rfl, rfl, rfl, frozen.stopped.symm, rfl, rfl, rfl, fun _ => rfl, fun _ => .inl rfl⟩ rfl
  | release =>
    exact kept ⟨rfl, rfl, rfl, rfl, frozen.stopped.symm, rfl, rfl, rfl, fun _ => rfl, fun _ => .inl rfl⟩ rfl
  | lease passed =>
    obtain ⟨_, rfl⟩ := leased_ok passed
    exact kept ⟨rfl, rfl, rfl, rfl, rfl, rfl, rfl, rfl, fun _ => rfl, fun _ => .inl rfl⟩ rfl
  | floor prepared guest => exact kept (frozen.floor filed prepared guest) (by simp)
  | freeze _ _ passed => exact frozen.refreeze passed.choose_spec

/-! ### Every record that was saved -/

/-- A retirement that was saved is the retirement of a frozen record. -/
def Intact (record : Record) : Prop := ∀ request ∈ record.retirement, Frozen request record

theorem Intact.unretired (unretired : record.retirement = none) : Intact record :=
  fun request found => by rw [unretired] at found; cases found

theorem Change.unretired (change : Change commands files fences s record next)
    (unretired : record.retirement = none) : Intact next := by
  cases change with
  | fenceCommand _ _ passed | fenceFile _ passed | fenceLifecycle _ _ passed =>
    obtain ⟨_, _, _, rfl⟩ := fenced_ok passed
    exact .unretired unretired
  | lease passed =>
    obtain ⟨_, rfl⟩ := leased_ok passed
    exact .unretired unretired
  | floor => exact .unretired (by simpa using unretired)
  | complete passed =>
    obtain ⟨_, _, _, _, _, rfl⟩ := complete_ok passed
    exact .unretired (by simpa using unretired)
  | reclaim _ _ passed =>
    obtain ⟨_, _, _, _, _, _, rfl⟩ := reclaim_ok passed
    exact .unretired (by simpa using unretired)
  | outputPrepared _ _ passed =>
    obtain ⟨_, rfl⟩ := outputPrepared_ok passed
    exact .unretired unretired
  | outputPlanned passed =>
    obtain ⟨_, rfl⟩ := outputPlanned_ok passed
    exact .unretired unretired
  | freeze _ _ passed =>
    obtain ⟨later, passed⟩ := passed
    obtain ⟨_, same⟩ := frozen_ok passed
    have frozen := frozen_frozen passed
    intro other found
    rw [same] at found
    obtain rfl := Option.some.inj (Option.mem_def.mp found)
    exact frozen
  | _ => exact .unretired unretired

/-- A host that starts stops what is stopped already. -/
theorem Frozen.reopened (frozen : Frozen request record) :
    { record with stopped := true } = record := by
  rw [← frozen.stopped]

theorem Succeeds.intact (succeeds : Succeeds commands files record next) (filed : Filed record)
    (intact : Intact record) : Intact next := by
  cases retired : record.retirement with
  | none =>
    cases succeeds with
    | changed change => exact change.unretired retired
    | reopened => exact .unretired retired
  | some current =>
    have frozen := intact current retired
    intro other found
    cases succeeds with
    | changed change =>
      obtain ⟨_, after⟩ := change.frozen filed frozen
      obtain ⟨held, same, intent, _⟩ := after.claim
      obtain rfl := Option.some.inj (same.symm.trans found)
      exact ⟨after.stopped, (scope_intent intent).trans after.scope, held, same, rfl, le_rfl⟩
    | reopened =>
      rw [frozen.reopened] at found ⊢
      exact intact other found

theorem Initial.intact (initial : Initial record) : Intact record := by
  cases initial with
  | opened => exact .unretired rfl
  | fenced _ _ passed =>
    obtain ⟨_, same⟩ := frozen_ok passed
    have frozen := frozen_frozen passed
    intro other found
    rw [same] at found
    obtain rfl := Option.some.inj (Option.mem_def.mp found)
    exact frozen

theorem Journaled.intact (journaled : Journaled commands files s) : ∀ r ∈ s.written, Intact r :=
  fun r member => (journaled.all (P := fun r => Filed r ∧ Intact r)
    (fun _ initial => ⟨initial.filed, initial.intact⟩)
    (fun _ _ held succeeds => ⟨(succeeds.raised held.1).2, succeeds.intact held.1 held.2⟩) r member).2

/-! ### Moves -/

/-- The record on disk is frozen under the request and still has what the first one had. -/
def Holds (request : AllocationRetirement.Request) (first : Record) (s : Host) : Prop :=
  ∃ record, Journal.record? s.disk = some record ∧ Frozen request record ∧ Kept first record

theorem Move.holds {first : Record} {s' : Host} (move : Move commands files fences s s')
    (journaled : Journaled commands files s) (holds : Holds request first s) :
    Holds request first s' := by
  obtain ⟨record, disk, frozen, kept⟩ := holds
  have last : s.written.head? = some record := journaled.disk.symm.trans disk
  have follow {current next : Record} (live : Live s current)
      (change : Change commands files fences s current next) : Holds request first (s.store next) := by
    obtain rfl := Option.some.inj ((live.written journaled).symm.trans last)
    obtain ⟨after, held⟩ := change.frozen (journaled.filed _ (List.mem_of_mem_head? last)) frozen
    exact ⟨next, rfl, held, kept.trans after⟩
  have missing {P : Prop} (up : s.up = true) (calm : s.poisoned = false) (none : s.record = none) :
      P := by
    cases none.symm.trans ((journaled.mirror up calm).trans last)
  have reopened {epoch : ℤ} {accepted : Bool} {opened : Option Record}
      (passed : s.opened epoch accepted = .ok opened) : opened = some record := by
    rw [(opened_ok passed).2, disk, Option.map_some, frozen.reopened]
  cases move with
  | reopen _ passed =>
    obtain rfl := reopened passed
    exact ⟨record, rfl, frozen, kept⟩
  | start _ passed =>
    obtain rfl := reopened passed
    exact ⟨record, rfl, frozen, kept⟩
  | insert up calm none => exact missing up calm none
  | insertFenced up calm none => exact missing up calm none
  | change live change => exact follow live change
  | send live intends => exact follow live (.intend intends)
  | askCommit live held commit abort staged valid =>
    exact follow live (.requestCommit held commit abort staged valid)
  | askAbort live held abort valid => exact follow live (.requestAbort held abort valid)
  | _ => exact ⟨record, disk, frozen, kept⟩

theorem Reached.holds {origin s' : Host} {first : Record}
    (reached : Reached commands files fences origin s') (journaled : Journaled commands files origin)
    (holds : Holds request first origin) :
    Journaled commands files s' ∧ Holds request first s' := by
  induction reached with
  | refl => exact ⟨journaled, holds⟩
  | tail _ move ih => exact ⟨move.journaled ih.1, move.holds ih.1 ih.2⟩

/-! ### A claim that is used again for something else -/

end

/-! ### Runs with deletion -/

namespace Deletion

section
variable {commands : CommandEncoding} {files : FileEncoding} {s t : Deletion} {record first : Record}
  {request : AllocationRetirement.Request} {forgets : Prop}

/-- What a step relies on and leaves: the requests that wait are sound, the journal holds the last
record written, and a record that was frozen is still kept. -/
structure Carries (commands : CommandEncoding) (files : FileEncoding) (a b : Host) : Prop where
  sound : AllSound commands files a → AllSound commands files b
  journaled : Journaled commands files a → Journaled commands files b
  holds : Journaled commands files a → ∀ request first, Holds request first a → Holds request first b

theorem Carries.reached {fences : OperationId → Prop} {a b : Host}
    (reached : Reached commands files fences a b) : Carries commands files a b where
  sound := reached.sound
  journaled journaled := by
    induction reached with
    | refl => exact journaled
    | tail _ move ih => exact move.journaled ih
  holds journaled _ _ holds := (reached.holds journaled holds).2

theorem Carries.moved {a b : Host} (move : Move commands files (fun _ => True) a b) :
    Carries commands files a b := .reached (.single move)

theorem Carries.refl {a : Host} : Carries commands files a a := by
  have reached : Reached commands files (fun _ => True) a a := .refl
  exact .reached reached

/-- Forgotten for good, where the step may forget, or carried on. -/
def Continues (commands : CommandEncoding) (files : FileEncoding) (forgets : Prop) (s t : Deletion) :
    Prop :=
  (forgets ∧ t.forgotten = true ∧ t.record? = none) ∨
    (t.forgotten = false ∧ Carries commands files s.host t.host)

theorem settle_host {host : Host} : (s.settle host).host = host := by
  unfold settle
  split
  · split <;> rfl
  · rfl

theorem settle_forgotten {host : Host} : (s.settle host).forgotten = s.forgotten := by
  unfold settle
  split
  · split <;> rfl
  · rfl

theorem Continues.settled {host : Host} (alive : s.forgotten = false)
    (carries : Carries commands files s.host host) : Continues commands files forgets s (s.settle host) := by
  refine .inr ⟨settle_forgotten.trans alive, ?_⟩
  rw [settle_host]
  exact carries

theorem Continues.poisoned (alive : s.forgotten = false) :
    Continues commands files forgets s { s with host := s.host.poison } :=
  .inr ⟨alive, .moved .poison⟩

theorem Continues.unchanged (alive : s.forgotten = false) (same : t.host = s.host)
    (kept : t.forgotten = s.forgotten) : Continues commands files forgets s t := by
  refine .inr ⟨kept.trans alive, ?_⟩
  rw [same]
  exact .refl

/-- The host's part of the state is as it was, but for its trust in the journal. -/
structure Unchanged (s t : Deletion) : Prop where
  record : t.host.record = s.host.record
  disk : t.host.disk = s.host.disk
  metadata : t.metadata = s.metadata
  retained : t.retained = s.retained
  alive : t.forgotten = s.forgotten

theorem Unchanged.poisoned : Unchanged s { s with host := s.host.poison } :=
  ⟨rfl, rfl, rfl, rfl, rfl⟩

end

/-! ### A history claim after the freeze -/

namespace FrozenSample

def commands : CommandEncoding := { length := fun _ => 0, digest := fun _ => 0 }
def files : FileEncoding := { length := fun _ => 0, sha256 := fun _ => 0 }

/-- A version 7 identity. -/
def uuid (n : ℕ) : Uuid := BitVec.ofNat 128 (7 * 2 ^ 76 + 2 * 2 ^ 62 + n)

def owner (operation revision : ℕ) : Ownership :=
  { hostId := ⟨uuid 1⟩, projectId := ⟨uuid 2⟩, sandboxId := ⟨uuid 3⟩, allocationId := ⟨uuid 4⟩,
    operationId := ⟨uuid operation⟩, generation := 1, supervisorEpoch := 1, claimRevision := revision,
    claimExpiresUnixMs := 100 }

def permit : AllocationAuthority.Permit :=
  { host := ⟨uuid 1⟩, project := ⟨uuid 2⟩, sandbox := ⟨uuid 3⟩, allocation := ⟨uuid 4⟩,
    createOperation := ⟨uuid 5⟩, generation := 1, originalEpoch := 1, serial := 1 }

def create : CreateRequest :=
  { ownership := some (owner 5 1), launchPermit := some permit, imageDigest := "image",
    resources := none, allocationExpiresUnixMs := 1000 }

def cleaned : GuardianTurns := { cleaned := .ok { startCount := 1, expiresUnixMs := 1000 } }

def created : CreateTurns :=
  { fence := { now := 1 }, guardian := cleaned, observed := 1, claim := 1,
    ready := some { startCount := 1, expiresUnixMs := 1000 } }

def lease (revision : ℕ) : LeaseOwnership :=
  { hostId := ⟨uuid 1⟩, projectId := ⟨uuid 2⟩, sandboxId := ⟨uuid 3⟩, allocationId := ⟨uuid 4⟩,
    generation := 1, supervisorEpoch := 1, revision, claimExpiresUnixMs := 100 }

def barrier : Barrier :=
  { version := 1, context := { allocationId := ⟨uuid 4⟩, generation := 1, bootId := "boot" },
    domain := .commands, through := ⟨uuid 9⟩ }

def retireHistory (revision : ℕ) : List Event :=
  let request : HistoryRequest := { ownership := some (lease revision), barrier := some barrier }
  [.host (.arrive (.retireHistory request ⟨uuid 20⟩) { now := 1 }),
    .host (.serve (.retireHistory (historyOwner (lease revision) ⟨uuid 20⟩) request (lease revision) barrier)
      { record := { now := 1 }, boot := some "boot", ask := 1, acknowledged := .received (), settle := 1,
        answer := 1, observed := 1 })]

def intent : AllocationRetirement.Intent :=
  { version := 1, retirement := ⟨uuid 30⟩, permit, commands := .retired ⟨uuid 9⟩, files := .empty,
    releaseEvidenceSha256 := List.replicate 64 48, simulated := false }

def request : AllocationRetirement.Request :=
  { intent, reportingEpoch := 1, revision := 1, expiresUnixMs := 100 }

/-- A sandbox whose command history is retired is stopped, and its allocation is fenced. -/
def fenced : List Event :=
  [.host (.start 1 true .written), .host (.arrive (.create create true) { now := 1 }),
    .host (.serve (.create (owner 5 1) create) created)] ++ retireHistory 1 ++
  [.host (.arrive (.inspect (some (owner 6 1)) true) { now := 1 }),
    .host (.serve (.inspect (owner 6 1) true)
      { fence := { now := 1 }, guardian := cleaned, observed := 1 }),
    .host (.arrive (.fenceAllocation request) { now := 1 }),
    .host (.serve (.fenceAllocation request) { now := 1, validated := 1, answer := 1 })]

def start : Deletion := new ⟨uuid 4⟩ ⟨uuid 1⟩ true

end FrozenSample
end Deletion
end HudsonSandbox.Host
