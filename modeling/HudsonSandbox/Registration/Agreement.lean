import HudsonSandbox.Registration.System

/-!
# The host holds what the store issued

Whatever the controllers do at the same time, a permit in the host's ledger is the store's permit
of that serial, and the store's checkpoint stays at or below what every copy of the ledger has
registered. `Inv` says so, and `step_inv` that every step keeps it.
-/

namespace HudsonSandbox.Registration
open Checked AllocationAuthority LiveOutput
open Stored (Write)
open Inner (Checkpoint Texts AuthorityFile)

/-! ### The tables -/

/-- What the keys, the checks and the counter keep of the tables. -/
structure Tables.Valid (host : HostId) (t : Tables) : Prop where
  serials : t.permits.map (·.serial) = List.range' 1 t.lastAllocationSerial
  bounded : t.lastAllocationSerial ≤ MAX_SERIAL
  registered : t.registeredAllocationSerial ≤ t.lastAllocationSerial
  epoch : t.supervisorEpoch < 2 ^ 63
  hosts : ∀ p ∈ t.permits, p.host = host
  permits : ∀ p ∈ t.permits, p.Valid ∧ p.Words
  epochs : ∀ p ∈ t.permits, p.originalEpoch ≤ t.supervisorEpoch
  joined : ∀ p ∈ t.permits, t.Joined p
  allocation : ∀ p ∈ t.permits, ∀ q ∈ t.permits, p.allocation = q.allocation → p.serial = q.serial
  operation : ∀ p ∈ t.permits, ∀ q ∈ t.permits,
    p.createOperation = q.createOperation → p.serial = q.serial
  generation : ∀ p ∈ t.permits, ∀ q ∈ t.permits,
    (p.sandbox, p.generation) = (q.sandbox, q.generation) → p.serial = q.serial
  operations : ∀ o ∈ t.operations, o.id.uuid.Valid ∧ o.projectId.uuid.Valid ∧ o.sandboxId.uuid.Valid

/-- No statement takes a permit back or lowers a counter. -/
structure Tables.Grows (t t' : Tables) : Prop where
  permits : ∀ p ∈ t.permits, p ∈ t'.permits
  last : t.lastAllocationSerial ≤ t'.lastAllocationSerial
  registered : t.registeredAllocationSerial ≤ t'.registeredAllocationSerial

section
variable {host : HostId} {t t' : Tables}

theorem Tables.Grows.refl : t.Grows t := ⟨fun _ => id, le_rfl, le_rfl⟩

theorem Tables.Valid.serial_bounds (valid : t.Valid host) {p : Permit} (issued : p ∈ t.permits) :
    1 ≤ p.serial ∧ p.serial ≤ t.lastAllocationSerial := by
  have listed : p.serial ∈ t.permits.map (·.serial) := List.mem_map_of_mem issued
  rw [valid.serials, List.mem_range'_1] at listed
  omega

/-- A serial names one permit. -/
theorem Tables.Valid.serial_unique (valid : t.Valid host) {p q : Permit} (issued : p ∈ t.permits)
    (other : q ∈ t.permits) (same : p.serial = q.serial) : p = q := by
  have nodup : (t.permits.map (·.serial)).Nodup := by
    rw [valid.serials]
    exact List.nodup_range'
  exact List.inj_on_of_nodup_map nodup issued other same

theorem Tables.Joined.mono {p : Permit} (joined : t.Joined p)
    (allocations : ∀ a ∈ t.allocations, a ∈ t'.allocations)
    (operations : ∀ o ∈ t.operations, o ∈ t'.operations) : t'.Joined p := by
  obtain ⟨⟨a, held, carries⟩, o, listed, creates⟩ := joined
  exact ⟨⟨a, allocations a held, carries⟩, o, operations o listed, creates⟩

theorem addOperation_valid {row : OperationRow} (valid : t.Valid host)
    (minted : row.id.uuid.Valid ∧ row.projectId.uuid.Valid ∧ row.sandboxId.uuid.Valid)
    (h : t.addOperation row = .ok t') : t'.Valid host ∧ t.Grows t' := by
  obtain ⟨_, h⟩ := seq_ok.mp h
  obtain rfl := pure_ok.mp h
  refine ⟨⟨valid.serials, valid.bounded, valid.registered, valid.epoch, valid.hosts, valid.permits,
    valid.epochs, fun p issued => ?_, valid.allocation, valid.operation, valid.generation, ?_⟩,
    ⟨fun _ => id, le_rfl, le_rfl⟩⟩
  · exact (valid.joined p issued).mono (fun _ => id) fun o listed => List.mem_append_left _ listed
  · intro o listed
    rcases List.mem_append.mp listed with old | new
    · exact valid.operations o old
    · rw [List.mem_singleton.mp new]
      exact minted

theorem registerHost_valid (valid : t.Valid host) {epoch : ℤ} (word : epoch < 2 ^ 63) :
    (t.registerHost epoch).Valid host :=
  ⟨valid.serials, valid.bounded, valid.registered, max_lt valid.epoch word, valid.hosts,
    valid.permits, fun p issued => (valid.epochs p issued).trans (le_max_left _ _), valid.joined,
    valid.allocation, valid.operation, valid.generation, valid.operations⟩

/-- A key that a new row does not share stays a key. -/
theorem key_append {β : Type*} {key : Permit → β} {rows : List Permit} {new : Permit}
    (unique : ∀ p ∈ rows, ∀ q ∈ rows, key p = key q → p.serial = q.serial)
    (fresh : ∀ p ∈ rows, key p ≠ key new) :
    ∀ p ∈ rows ++ [new], ∀ q ∈ rows ++ [new], key p = key q → p.serial = q.serial := by
  intro p issued q other same
  rcases List.mem_append.mp issued with old | last <;> rcases List.mem_append.mp other with old' | last'
  · exact unique p old q old' same
  · rw [List.mem_singleton.mp last'] at same
    exact absurd same (fresh p old)
  · rw [List.mem_singleton.mp last] at same
    exact absurd same.symm (fresh q old')
  · rw [List.mem_singleton.mp last, List.mem_singleton.mp last']

/-- What holds of every permit and of a new one. -/
theorem forall_append {P : Permit → Prop} {rows : List Permit} {new : Permit}
    (old : ∀ p ∈ rows, P p) (last : P new) : ∀ p ∈ rows ++ [new], P p := by
  intro p issued
  rcases List.mem_append.mp issued with held | added
  · exact old p held
  · rw [List.mem_singleton.mp added]
    exact last

theorem reserve_valid {id : AllocationId} {operation : OperationId} (owner : host.uuid.Valid)
    (valid : t.Valid host) (minted : id.uuid.Valid) (h : t.reserve host id operation = .ok t') :
    t'.Valid host ∧ t.Grows t' := by
  obtain ⟨op, found, h⟩ := bind_ok.mp h
  obtain ⟨positive, h⟩ := seq_ok.mp h
  obtain ⟨_, h⟩ := seq_ok.mp h
  obtain ⟨room, h⟩ := seq_ok.mp h
  obtain ⟨fresh, h⟩ := seq_ok.mp h
  obtain rfl := pure_ok.mp h
  have found := okOr_ok.mp found
  have listed := List.mem_of_find?_eq_some found
  obtain ⟨rfl, creates⟩ : op.id = operation ∧ op.create = true := by
    simpa using List.find?_some found
  obtain ⟨opId, project, sandbox⟩ := valid.operations op listed
  have fresh := ensure_ok.mp fresh
  have room := ensure_ok.mp room
  have positive := ensure_ok.mp positive
  have one : (0 : ℤ) < 1 ∧ -2 ^ 63 ≤ (1 : ℤ) ∧ (1 : ℤ) < 2 ^ 63 := by decide
  have low : -2 ^ 63 ≤ t.supervisorEpoch := by omega
  have serial : t.lastAllocationSerial + 1 ≤ MAX_SERIAL := by
    simp only [MAX_SERIAL]
    omega
  have word : t.lastAllocationSerial + 1 < 2 ^ 64 := by omega
  refine ⟨⟨?_, serial, valid.registered.trans (Nat.le_succ _), valid.epoch,
    forall_append valid.hosts rfl,
    forall_append valid.permits ⟨⟨owner, project, sandbox, minted, opId, one.1, positive,
      Nat.succ_pos _, serial⟩, ⟨one.2, ⟨low, valid.epoch⟩, word⟩⟩,
    forall_append valid.epochs le_rfl, forall_append ?_ ?_,
    key_append valid.allocation fun p held => (fresh p held).1,
    key_append valid.operation fun p held => (fresh p held).2.1,
    key_append valid.generation fun p held => (fresh p held).2.2, valid.operations⟩,
    ⟨fun p issued => List.mem_append_left _ issued, Nat.le_succ _, le_rfl⟩⟩
  · rw [List.map_append, valid.serials, List.range'_concat]
    simp [Nat.add_comm]
  · exact fun p issued =>
      (valid.joined p issued).mono (fun a held => List.mem_append_left _ held) fun _ held => held
  · exact ⟨⟨_, List.mem_append_right _ List.mem_cons_self, rfl, rfl, rfl, rfl, rfl, rfl⟩,
      op, listed, rfl, creates, rfl, rfl⟩

theorem record_valid {epoch : ℤ} {required : Bool} {through : ℕ} (valid : t.Valid host)
    (h : t.recordAllocationRegistration epoch required through = .ok t') :
    t'.Valid host ∧ t.Grows t' ∧ t'.registeredAllocationSerial = through := by
  obtain ⟨_, h⟩ := seq_ok.mp h
  obtain ⟨accepted, h⟩ := seq_ok.mp h
  obtain rfl := pure_ok.mp h
  obtain ⟨_, _, rises, below⟩ := ensure_ok.mp accepted
  exact ⟨⟨valid.serials, valid.bounded, below, valid.epoch, valid.hosts, valid.permits, valid.epochs,
    valid.joined, valid.allocation, valid.operation, valid.generation, valid.operations⟩,
    ⟨fun _ => id, le_rfl, rises⟩, rfl⟩

end

/-! ### The system -/

/-- Every copy of the host's ledger has registered that far. -/
def Covered (s : Registration) (n : ℕ) : Prop :=
  s.root.file.Always fun file => n ≤ file.ledger.through

/-- How far a controller relies on the host having registered. -/
def Point.relies : Point → Option ℕ
  | .observed through | .accepted through | .acknowledged through | .synced through => some through
  | .inspecting _ | .registering .. | .failed => none

structure Inv (host : HostId) (s : Registration) : Prop where
  owner : host.uuid.Valid
  root : Launch.Inv host s.root
  tables : s.tables.Valid host
  retained : s.root.file.Always fun file => (∀ e ∈ file.ledger.entries, e.permit ∈ s.tables.permits) ∧
    file.ledger.through ≤ s.tables.lastAllocationSerial
  registered : s.Covered s.tables.registeredAllocationSerial
  calls : ∀ call ∈ s.calls, ∀ p ∈ call.permits, p ∈ s.tables.permits
  replies : ∀ reply ∈ s.replies, s.Covered reply.registeredThrough
  controllers : ∀ c ∈ s.controllers, ∀ n ∈ c.point.relies, s.Covered n
  creates : ∀ p ∈ s.creates, p ∈ s.tables.permits ∧ s.Covered p.serial

section
variable {texts : Texts} {host : HostId} {s : Registration}

/-- Tables that grow change nothing for the host and the controllers. -/
theorem Inv.grow {tables : Tables} (inv : Inv host s) (valid : tables.Valid host)
    (grows : s.tables.Grows tables) (registered : s.Covered tables.registeredAllocationSerial) :
    Inv host { s with tables } :=
  ⟨inv.owner, inv.root, valid,
    inv.retained.imp fun _ held =>
      ⟨fun e member => grows.permits _ (held.1 e member), held.2.trans grows.last⟩,
    registered, fun call sent p asked => grows.permits p (inv.calls call sent p asked), inv.replies,
    inv.controllers, fun p sent => ⟨grows.permits p (inv.creates p sent).1, (inv.creates p sent).2⟩⟩

theorem Inv.commit {result : Except Error Tables} (inv : Inv host s)
    (keeps : ∀ next, result = .ok next → next.Valid host ∧ s.tables.Grows next ∧
      next.registeredAllocationSerial = s.tables.registeredAllocationSerial) :
    Inv host { s with tables := Checked.commit s.tables result } := by
  cases result with
  | error e => exact inv
  | ok next =>
    obtain ⟨valid, grows, same⟩ := keeps next rfl
    refine inv.grow valid grows ?_
    change s.Covered next.registeredAllocationSerial
    rw [same]
    exact inv.registered

/-- A controller goes on, relying on nothing that is not covered. -/
theorem Inv.resume {thread : ℕ} {c : Controller} {point : Point} (inv : Inv host s)
    (relies : ∀ n ∈ point.relies, s.Covered n) : Inv host (s.resume thread c point) := by
  refine ⟨inv.owner, inv.root, inv.tables, inv.retained, inv.registered, inv.calls, inv.replies, ?_,
    inv.creates⟩
  intro other held
  rcases List.mem_or_eq_of_mem_set held with old | rfl
  · exact inv.controllers other old
  · exact relies

theorem Inv.send {call : Call} (inv : Inv host s) (asked : ∀ p ∈ call.permits, p ∈ s.tables.permits) :
    Inv host (s.send call) := by
  refine ⟨inv.owner, inv.root, inv.tables, inv.retained, inv.registered, ?_, inv.replies,
    inv.controllers, inv.creates⟩
  intro other sent
  rcases List.mem_append.mp sent with old | new
  · exact inv.calls other old
  · rw [List.mem_singleton.mp new]
    exact asked

/-- A new controller relies on nothing that is not covered either. -/
theorem Inv.join {c : Controller} (inv : Inv host s) (relies : ∀ n ∈ c.point.relies, s.Covered n) :
    Inv host { s with controllers := s.controllers ++ [c] } := by
  refine ⟨inv.owner, inv.root, inv.tables, inv.retained, inv.registered, inv.calls, inv.replies, ?_,
    inv.creates⟩
  intro other held
  rcases List.mem_append.mp held with old | new
  · exact inv.controllers other old
  · rw [List.mem_singleton.mp new]
    exact relies

/-! ### Controllers -/

theorem begin_inv (inv : Inv host s) (epoch : ℤ) (required : Bool) :
    Inv host (s.begin epoch required) := by
  unfold begin
  split
  · have sent : Inv host (s.send { reportingEpoch := epoch, permits := [] }) := inv.send (by simp)
    exact sent.join (by rintro n ⟨⟩)
  · split
    · exact inv
    next tables recorded =>
      obtain ⟨valid, grows, same⟩ := record_valid inv.tables recorded
      have zero : s.Covered 0 := inv.retained.imp fun _ _ => Nat.zero_le _
      have grown : Inv host { s with tables } := inv.grow valid grows (by rw [same]; exact zero)
      refine grown.join ?_
      rintro n ⟨⟩
      exact zero

theorem receive_inv (inv : Inv host s) (thread : ℕ) (c : Controller) {reply : Option Reply}
    (given : ∀ r ∈ reply, r ∈ s.replies) : Inv host (s.receive thread c reply) := by
  unfold receive
  split
  next reply _ =>
    split
    · refine inv.resume ?_
      split
      · rintro n ⟨⟩
        exact inv.replies reply (given reply rfl)
      · rintro n ⟨⟩
    · exact inv
  next reply _ =>
    split
    · refine inv.resume ?_
      split
      · rintro n ⟨⟩
      · rintro n ⟨⟩
        exact inv.replies reply (given reply rfl)
    · exact inv
  · exact inv.resume (by rintro n ⟨⟩)
  · exact inv.resume (by rintro n ⟨⟩)
  · exact inv

theorem accept_inv (inv : Inv host s) (thread : ℕ) {c : Controller} (held : c ∈ s.controllers) :
    Inv host (s.accept thread c) := by
  have recorded : ∀ {through : ℕ} {tables : Tables}, s.Covered through →
      s.tables.recordAllocationRegistration c.epoch true through = .ok tables →
      Inv host { s with tables } := by
    intro through tables covered h
    obtain ⟨valid, grows, same⟩ := record_valid inv.tables h
    exact inv.grow valid grows (by rw [same]; exact covered)
  unfold accept
  split
  next through point =>
    have covered := inv.controllers c held through (by rw [point]; rfl)
    split
    · exact inv.resume (by rintro n ⟨⟩)
    next tables h => exact (recorded covered h).resume (by rintro n ⟨⟩; exact covered)
  next through point =>
    have covered := inv.controllers c held through (by rw [point]; rfl)
    split
    · exact inv.resume (by rintro n ⟨⟩)
    next tables h => exact (recorded covered h).resume (by rintro n ⟨⟩; exact covered)
  · exact inv

/-- A batch holds issued permits only. -/
theorem batch_issued {t : Tables} {after : ℕ} {batch : PermitBatch}
    (h : t.allocationPermitsAfter host after = .ok batch) :
    ∀ p ∈ batch.permits, p ∈ t.permits ∧ after < p.serial := by
  obtain ⟨_, h⟩ := seq_ok.mp h
  obtain ⟨_, h⟩ := seq_ok.mp h
  obtain ⟨_, h⟩ := seq_ok.mp h
  obtain ⟨_, h⟩ := seq_ok.mp h
  obtain rfl := pure_ok.mp h
  intro p listed
  have row := List.mem_mergeSort.mp (List.mem_of_mem_take listed)
  obtain ⟨issued, later⟩ := List.mem_filter.mp row
  exact ⟨issued, (of_decide_eq_true later).2⟩

theorem read_inv (inv : Inv host s) (thread : ℕ) {c : Controller} (held : c ∈ s.controllers) :
    Inv host (s.read host thread c) := by
  unfold read
  split
  next through point =>
    have covered := inv.controllers c held through (by rw [point]; rfl)
    split
    · exact inv.resume (by rintro n ⟨⟩)
    next batch h =>
      split
      · exact inv.resume (by rintro n ⟨⟩)
      · split
        · exact inv.resume (by rintro n ⟨⟩; exact covered)
        · have sent : Inv host (s.send { reportingEpoch := c.epoch, permits := batch.permits }) :=
            inv.send fun p listed => (batch_issued h p listed).1
          exact sent.resume (by rintro n ⟨⟩)
  · exact inv

/-- The permit that is looked up is the one that was issued. -/
theorem launchPermit_issued {t : Tables} {owner : Ownership} {permit : Permit}
    (found : t.allocationLaunchPermit owner = some permit) : permit ∈ t.permits := by
  obtain ⟨p, selected, rfl⟩ := Option.map_eq_some_iff.mp found
  have issued := List.mem_of_find?_eq_some selected
  have owned := List.find?_some selected
  obtain ⟨host, project, sandbox, allocation, operation, generation, epoch, _⟩ := of_decide_eq_true owned
  cases p
  simp only at host project sandbox allocation operation generation epoch
  subst host project sandbox allocation operation generation epoch
  exact issued

theorem create_inv (inv : Inv host s) (thread : ℕ) {c : Controller} (held : c ∈ s.controllers)
    (owner : Ownership) : Inv host (s.create thread c owner) := by
  unfold create
  split
  next through point =>
    have covered := inv.controllers c held through (by rw [point]; rfl)
    split
    · exact inv.resume (by rintro n ⟨⟩)
    next permit found =>
      split
      · exact inv.resume (by rintro n ⟨⟩)
      next within =>
        refine ⟨inv.owner, inv.root, inv.tables, inv.retained, inv.registered, inv.calls, inv.replies,
          inv.controllers, ?_⟩
        intro p sent
        rcases List.mem_append.mp sent with old | new
        · exact inv.creates p old
        · rw [List.mem_singleton.mp new]
          exact ⟨launchPermit_issued found,
            covered.imp fun _ registered => (not_lt.mp within).trans registered⟩
  · exact inv

/-! ### The host -/

/-- The host takes a step that registers issued permits only. -/
theorem Inv.rooted {event : Launch.Event} (inv : Inv host s) (words : event.Words)
    (asked : ∀ request, event.request = some request → ∀ p ∈ request.permits, p ∈ s.tables.permits)
    {serving : Option ℕ} : Inv host { s with root := s.root.step texts host event, serving } := by
  have file : Launch.FileStep texts host s.root.file event.request (s.root.step texts host event).file :=
    Launch.step_file inv.root words
  have covered : ∀ {n : ℕ}, s.Covered n →
      (s.root.step texts host event).file.Always fun copy => n ≤ copy.ledger.through :=
    fun below => file.through below
  refine ⟨inv.owner, Launch.step_inv inv.root words, inv.tables, ?_, covered inv.registered,
    inv.calls, fun r sent => covered (inv.replies r sent),
    fun c held n relies => covered (inv.controllers c held n relies),
    fun p sent => ⟨(inv.creates p sent).1, covered (inv.creates p sent).2⟩⟩
  have keeps := file.always (P := fun ledger =>
    (∀ e ∈ ledger.entries, e.permit ∈ s.tables.permits) ∧
      ledger.through ≤ s.tables.lastAllocationSerial) inv.retained
  refine keeps fun request named held => ?_
  have grown := @Authority.step_grown texts.json texts.intents texts.sha256 _ texts.serde
    inv.root.sound.1.stored request
  refine ⟨fun e member => ?_, ?_⟩
  · rcases grown.1 e member with ⟨old, present, same⟩ | added
    · exact same ▸ held.1 old present
    · exact asked request named e.permit added
  · rcases grown.2 with same | ⟨p, added, same⟩
    · rw [same]
      exact held.2
    · rw [same]
      exact (inv.tables.serial_bounds (asked request named p added)).2

theorem deliver_inv (inv : Inv host s) (call : ℕ) (granted : Bool) (write : Write) :
    Inv host (s.deliver texts host call granted write) := by
  unfold deliver
  split
  next request p sent process =>
    split
    · have asked := inv.calls request (List.mem_of_getElem? sent)
      have words : Launch.Event.Words (.sync request.reportingEpoch request.permits granted write) :=
        fun p listed => (inv.tables.permits p (asked p listed)).2
      refine inv.rooted words ?_
      rintro _ ⟨⟩ p listed
      exact asked p listed
    · exact inv
  · exact inv

/-- What the host answers is registered in every copy. -/
theorem acknowledged_covers (inv : Launch.Inv host s.root) {write : Write} {checkpoint : Checkpoint}
    (answered : acknowledged s.root write = some checkpoint) :
    s.Covered checkpoint.registeredThrough := by
  obtain ⟨p, process, answered⟩ := Option.bind_eq_some_iff.mp answered
  split at answered
  next current point =>
    dsimp only at answered
    split at answered
    · cases answered
    · obtain rfl := Option.some.inj answered
      have reached := (inv.process p process).reached
      rw [Launch.Reached, point] at reached
      exact reached.2.2.2.2.imp fun _ held => held.2
  · cases answered

theorem answer_covers (inv : Launch.Inv host s.root) {write : Write} :
    ∀ reply ∈ s.answer write, s.Covered reply.registeredThrough := by
  intro reply given
  unfold answer at given
  split at given
  next call checkpoint _ answered =>
    obtain rfl := List.mem_singleton.mp given
    exact acknowledged_covers inv answered
  · cases given

theorem internal_inv (inv : Inv host s) {event : Launch.Event} (inside : Internal event)
    (words : event.Words) : Inv host (s.internal texts host event) := by
  have asked : ∀ request, event.request = some request → ∀ p ∈ request.permits, p ∈ s.tables.permits := by
    intro request named p listed
    cases event with
    | sync reportingEpoch permits granted write =>
      obtain rfl := Option.some.inj named
      have none_asked : permits = [] := inside
      subst none_asked
      cases listed
    | compete minimum reportingEpoch asked write =>
      obtain rfl := Option.some.inj named
      have none_asked : asked.permits = [] := inside
      rw [none_asked] at listed
      cases listed
    | openJournal | advance | save | crash | powerLoss => cases named
  have rooted : ∀ serving, Inv host { s with root := s.root.step texts host event, serving } :=
    fun _ => inv.rooted words asked
  cases event with
  | advance granted write =>
    have next := rooted none
    refine ⟨next.owner, next.root, next.tables, next.retained, next.registered, next.calls, ?_,
      next.controllers, next.creates⟩
    intro reply sent
    rcases List.mem_append.mp sent with old | new
    · exact next.replies reply old
    · have file : Launch.FileStep texts host s.root.file none
          (s.root.step texts host (.advance granted write)).file := Launch.step_file inv.root words
      exact file.through (answer_covers inv.root reply new)
  | openJournal | crash | powerLoss => exact rooted none
  | sync | save | compete => exact rooted s.serving

theorem withController_inv (inv : Inv host s) {thread : ℕ} {next : Controller → Registration}
    (keeps : ∀ c ∈ s.controllers, Inv host (next c)) : Inv host (s.withController thread next) := by
  unfold withController
  split
  · exact inv
  next c held => exact keeps c (List.mem_of_getElem? held)

theorem step_inv (inv : Inv host s) {event : Event} (minted : event.Minted) :
    Inv host (s.step texts host event) := by
  cases event with
  | addOperation row =>
    refine inv.commit fun next h => ?_
    obtain ⟨valid, grows⟩ := addOperation_valid inv.tables minted h
    obtain ⟨_, h⟩ := seq_ok.mp h
    obtain rfl := pure_ok.mp h
    exact ⟨valid, grows, rfl⟩
  | reserve id operation =>
    refine inv.commit fun next h => ?_
    obtain ⟨valid, grows⟩ := reserve_valid inv.owner inv.tables minted h
    obtain ⟨_, _, h⟩ := bind_ok.mp h
    obtain ⟨_, h⟩ := seq_ok.mp h
    obtain ⟨_, h⟩ := seq_ok.mp h
    obtain ⟨_, h⟩ := seq_ok.mp h
    obtain ⟨_, h⟩ := seq_ok.mp h
    obtain rfl := pure_ok.mp h
    exact ⟨valid, grows, rfl⟩
  | registerHost epoch =>
    exact inv.grow (registerHost_valid inv.tables minted) ⟨fun _ => id, le_rfl, le_rfl⟩ inv.registered
  | begin epoch required => exact begin_inv inv epoch required
  | receive thread reply =>
    simp only [step]
    split
    · exact withController_inv inv fun c _ => receive_inv inv thread c (by rintro r ⟨⟩)
    · split
      · exact inv
      next reply held =>
        refine withController_inv inv fun c _ => receive_inv inv thread c ?_
        rintro r ⟨⟩
        exact List.mem_of_getElem? held
  | accept thread => exact withController_inv inv fun c held => accept_inv inv thread held
  | read thread => exact withController_inv inv fun c held => read_inv inv thread held
  | create thread owner => exact withController_inv inv fun c held => create_inv inv thread held owner
  | deliver call granted write => exact deliver_inv inv call granted write
  | host event => exact internal_inv inv event.2 minted

theorem step_grows (inv : Inv host s) {event : Event} (minted : event.Minted) :
    s.tables.Grows (s.step texts host event).tables := by
  have accepted : ∀ {epoch : ℤ} {required : Bool} {through : ℕ} {tables : Tables},
      s.tables.recordAllocationRegistration epoch required through = .ok tables →
      s.tables.Grows tables := fun h => (record_valid inv.tables h).2.1
  have controlled : ∀ {thread : ℕ} {next : Controller → Registration},
      (∀ c, s.tables.Grows (next c).tables) → s.tables.Grows (s.withController thread next).tables := by
    intro thread next grows
    unfold withController
    split
    · exact .refl
    · exact grows _
  cases event with
  | addOperation row =>
    exact commit_keeps (P := fun next => s.tables.Grows next) .refl
      fun next h => (addOperation_valid inv.tables minted h).2
  | reserve id operation =>
    exact commit_keeps (P := fun next => s.tables.Grows next) .refl
      fun next h => (reserve_valid inv.owner inv.tables minted h).2
  | registerHost epoch => exact ⟨fun _ => id, le_rfl, le_rfl⟩
  | begin epoch required =>
    simp only [step, begin]
    split
    · exact .refl
    · split
      · exact .refl
      next tables h => exact accepted h
  | receive thread reply =>
    have received : ∀ c heard, s.tables.Grows (s.receive thread c heard).tables := by
      intro c heard
      unfold receive
      repeat' split
      all_goals exact .refl
    simp only [step]
    split
    · exact controlled fun c => received c none
    · split
      · exact .refl
      next heard _ => exact controlled fun c => received c (some heard)
  | accept thread =>
    refine controlled fun c => ?_
    unfold accept
    split
    · split
      · exact .refl
      next tables h => exact accepted h
    · split
      · exact .refl
      next tables h => exact accepted h
    · exact .refl
  | read thread =>
    refine controlled fun c => ?_
    unfold read
    repeat' split
    all_goals exact .refl
  | create thread owner =>
    refine controlled fun c => ?_
    unfold create
    repeat' split
    all_goals exact .refl
  | deliver call granted write =>
    simp only [step, deliver]
    repeat' split
    all_goals exact .refl
  | host event =>
    simp only [step, internal]
    split
    all_goals exact .refl

end

end HudsonSandbox.Registration
