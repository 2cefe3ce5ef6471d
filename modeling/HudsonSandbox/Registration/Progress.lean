import HudsonSandbox.Registration.Agreement

/-!
# A sync that runs alone

With the host up in the store's epoch, no allocation without its permit and room for a batch, one
controller that nobody overtakes reads the mark, registers the permits behind it and records how
far the host then is: `alone_registers`. With what every run keeps, `registration_agrees`.
-/

namespace HudsonSandbox
open AllocationAuthority
open Stored (Write)
open Inner (AuthorityFile Checkpoint Texts)

namespace Launch
open Checked Stored

/-! ### The host's side of a call -/

/-- The host answers requests, and its journal is known to be saved. -/
structure Up (s : Launch) (p : Process) : Prop where
  process : s.process = some p
  point : p.point = .serving
  clean : p.poisoned = false

section
variable {texts : Texts} {host : HostId} {s : Launch} {p : Process}

theorem Up.reached (up : s.Up p) (inv : Inv host s) :
    s.file.Always (fun file => file.epoch = p.epoch) ∧ p.journal.launchAuthority.epoch = p.epoch := by
  have reached := (inv.process p up.process).reached
  rw [Reached, up.point] at reached
  exact ⟨reached.1, reached.2.1⟩

theorem Up.positive (up : s.Up p) (inv : Inv host s) : 0 < p.epoch := by
  have anchored := (inv.process p up.process).anchored.1.positive
  rw [(up.reached inv).2] at anchored
  exact anchored

/-- What the journal knows of the file is registered in it. -/
theorem Up.covered (up : s.Up p) (inv : Inv host s) :
    p.journal.launchAuthority.registeredThrough ≤ s.file.visible.ledger.through :=
  (inv.process p up.process).anchored.1.covers.2

/-- An empty batch reads the mark. -/
theorem sync_inspects (inv : Inv host s) (up : s.Up p) :
    s.step texts host (.sync p.epoch [] true .done) =
      { s with file := s.file.sync }.resume p (.syncing
        { epoch := p.epoch, registeredThrough := s.file.visible.ledger.through }) := by
  have own := (up.reached inv).1.1
  have floor := (inv.process p up.process).floor.1
  have read : checkpoint texts host s.file.visible p.floor p.epoch =
      .ok { epoch := s.file.visible.epoch, registeredThrough := s.file.visible.ledger.through } := by
    rw [checkpoint, load_covered inv.sound.1 floor]
    change (do ensure _ _; _) = _
    rw [seq_of_ok (ensure_ok.mpr own)]
    rfl
  rw [step, up.process]
  dsimp only
  rw [sync, if_pos ⟨up.point, up.clean, rfl, rfl⟩, if_pos rfl, read, own]
  rfl

/-- A batch of permits fits into a request. -/
theorem permitsJson_fits {permits : List Permit} (few : permits.length ≤ MAX_BATCH)
    (valid : ∀ q ∈ permits, q.Valid ∧ q.Words) : (permitsJson permits).length ≤ 65536 := by
  have printable : ∀ item ∈ permits.map Permit.text, Text.Printable item := by
    intro item listed
    obtain ⟨q, _, rfl⟩ := List.mem_map.mp listed
    exact q.text_printable
  have each : ∀ item ∈ permits.map Permit.text, item.length ≤ 400 := by
    intro item listed
    obtain ⟨q, held, rfl⟩ := List.mem_map.mp listed
    exact Permit.text_length (valid q held).1 (valid q held).2
  have whole := Text.array_length_le each
  rw [List.length_map] at whole
  rw [permitsJson, Text.utf8_length (Text.array_printable printable)]
  simp only [MAX_BATCH] at few
  omega

/-- The next batch is registered and saved. -/
theorem sync_registers (inv : Inv host s) (up : s.Up p) {permits : List Permit}
    (next : Authority.Next s.file.visible.ledger permits)
    (epochs : ∀ q ∈ permits, q.originalEpoch ≤ p.epoch) :
    s.step texts host (.sync p.epoch permits true .done) =
      { s with
        file := .of
          { epoch := p.epoch, ledger := permits.foldl Authority.push s.file.visible.ledger } }.resume
        p (.syncing
          { epoch := p.epoch
            registeredThrough := s.file.visible.ledger.through + permits.length }) := by
  have own := (up.reached inv).1.1
  have floor := (inv.process p up.process).floor.1
  have stored := inv.sound.1.stored
  have registered : s.file.visible.register texts host p.floor p.epoch permits =
      .ok { epoch := p.epoch, ledger := permits.foldl Authority.push s.file.visible.ledger } := by
    rw [AuthorityFile.register, load_covered inv.sound.1 floor]
    change (do ensure _ _; _) = _
    rw [seq_of_ok (ensure_ok.mpr own), seq_of_ok (ensure_ok.mpr epochs),
      Authority.register_next texts.serde stored next, AuthorityFile.change]
    change AuthorityFile.save texts _ _ = _
    rw [save_stored (next.stored stored), own]
  have fits : ¬65536 < (permitsJson permits).length := by
    have small := permitsJson_fits next.bounded fun q listed => ⟨(next.valid q listed).1, next.words q listed⟩
    omega
  rw [step, up.process]
  dsimp only
  rw [sync, if_pos ⟨up.point, up.clean, rfl, rfl⟩, if_neg next.nonempty, if_neg fits, registered]
  dsimp only
  rw [if_pos rfl, Authority.foldl_push_through next.serials]
  rfl

/-- The host leaves a call; nothing fails. -/
theorem acknowledge_done {current : Checkpoint} (process : s.process = some p)
    (point : p.point = .syncing current) (clean : p.poisoned = false) :
    ∃ q, (s.step texts host (.advance true .done)).Up q ∧ q.epoch = p.epoch ∧
      (s.step texts host (.advance true .done)).file = s.file := by
  rw [step, process]
  dsimp only
  rw [advance, point]
  dsimp only
  unfold acknowledge
  dsimp only
  split
  · exact ⟨_, ⟨rfl, rfl, clean⟩, rfl, rfl⟩
  · split
    · exact ⟨_, ⟨rfl, rfl, rfl⟩, rfl, rfl⟩
    · exact ⟨_, ⟨rfl, rfl, clean⟩, rfl, rfl⟩

end
end Launch

namespace Registration
open Checked LiveOutput Run

/-! ### The next batch -/

section
variable {host : HostId} {t : Tables}

/-- The permits stand in the order of their serials, so those behind a mark are a suffix. -/
theorem later_permits (valid : t.Valid host) {after : ℕ} :
    t.permits.filter (fun p => p.host = host ∧ after < p.serial) = t.permits.drop after := by
  have early : (t.permits.take after).map (·.serial) = (List.range' 1 t.lastAllocationSerial).take after := by
    rw [List.map_take, valid.serials]
  have late : (t.permits.drop after).map (·.serial) =
      List.range' (1 + after) (t.lastAllocationSerial - after) := by
    rw [List.map_drop, valid.serials, List.drop_range', Nat.mul_one]
  conv_lhs => rw [← List.take_append_drop after t.permits]
  rw [List.filter_append, List.filter_eq_nil_iff.mpr, List.filter_eq_self.mpr, List.nil_append]
  · intro p listed
    have ranged : p.serial ∈ (t.permits.drop after).map (·.serial) := List.mem_map_of_mem listed
    rw [late, List.mem_range'_1] at ranged
    exact decide_eq_true ⟨valid.hosts p (List.mem_of_mem_drop listed), by omega⟩
  · intro p listed selected
    have ranged : p.serial ∈ (t.permits.take after).map (·.serial) := List.mem_map_of_mem listed
    rw [early] at ranged
    obtain ⟨i, within, same⟩ := List.mem_iff_getElem.mp ranged
    have below : i < after := by
      rw [List.length_take] at within
      omega
    have above := (of_decide_eq_true selected).2
    rw [List.getElem_take, List.getElem_range'] at same
    omega

theorem checkRows_ok {expected : ℕ} {rows : List Permit} (joined : ∀ p ∈ rows, t.Joined p)
    (serials : rows.map (·.serial) = List.range' expected rows.length) :
    t.checkRows expected rows = .ok () := by
  induction rows generalizing expected with
  | nil => rfl
  | cons p rest ih =>
    obtain ⟨head, others⟩ := List.forall_mem_cons.mp joined
    obtain ⟨first, tail⟩ : p.serial = expected ∧
        rest.map (·.serial) = List.range' (expected + 1) rest.length := by
      simpa [List.range'_succ] using serials
    rw [Tables.checkRows, seq_of_ok (ensure_ok.mpr ⟨head, first⟩)]
    exact ih others tail

/-- The permits behind a mark, at most a batch of them. -/
def nextPermits (t : Tables) (after : ℕ) : List Permit := (t.permits.drop after).take MAX_BATCH

theorem nextPermits_length (valid : t.Valid host) {after : ℕ} :
    (nextPermits t after).length = min (t.lastAllocationSerial - after) MAX_BATCH := by
  have count := congrArg List.length valid.serials
  rw [List.length_map, List.length_range'] at count
  rw [nextPermits, List.length_take, List.length_drop, count, Nat.min_comm]

theorem nextPermits_serials (valid : t.Valid host) {after : ℕ} :
    (nextPermits t after).map (·.serial) = List.range' (after + 1) (nextPermits t after).length := by
  have count := @nextPermits_length host t valid after
  rw [nextPermits] at count ⊢
  rw [count, List.map_take, List.map_drop, valid.serials, List.drop_range', Nat.mul_one, Nat.add_comm 1]
  rcases Nat.le_total (t.lastAllocationSerial - after) MAX_BATCH with fewer | more
  · rw [Nat.min_eq_left fewer, List.take_range'_of_length_le fewer]
  · rw [Nat.min_eq_right more, List.take_range'_of_length_ge more]

theorem nextPermits_issued {after : ℕ} {p : Permit} (listed : p ∈ nextPermits t after) :
    p ∈ t.permits :=
  List.mem_of_mem_drop (List.mem_of_mem_take listed)

/-- A batch is read whenever the mark is not ahead of the counter. -/
theorem permitsAfter_ok (valid : t.Valid host) {after : ℕ} (below : after ≤ t.lastAllocationSerial)
    (issued : ∀ a ∈ t.allocations, ¬t.Unissued host a) :
    t.allocationPermitsAfter host after = .ok
      { issuedThrough := t.lastAllocationSerial, permits := nextPermits t after
        hasUnissuedAllocations := false } := by
  have ordered : (t.permits.drop after).Pairwise fun p q => decide (p.serial ≤ q.serial) = true := by
    have ascending : (t.permits.map (·.serial)).Pairwise (· < ·) := by
      rw [valid.serials]
      exact List.pairwise_lt_range'
    have sorted := (List.pairwise_map.mp ascending).sublist (List.drop_sublist after t.permits)
    exact sorted.imp fun lower => decide_eq_true lower.le
  have none_left : decide (∃ a ∈ t.allocations, t.Unissued host a) = false := by
    refine decide_eq_false ?_
    rintro ⟨a, held, unissued⟩
    exact issued a held unissued
  rw [Tables.allocationPermitsAfter, seq_of_ok (ensure_ok.mpr (below.trans valid.bounded)),
    seq_of_ok (ensure_ok.mpr below), later_permits valid]
  dsimp only
  have rows : (t.permits.drop after).take MAX_BATCH = nextPermits t after := rfl
  rw [List.mergeSort_of_pairwise ordered, rows, seq_of_ok (ensure_ok.mpr (nextPermits_length valid)),
    seq_of_ok (checkRows_ok (fun p listed => valid.joined p (nextPermits_issued listed))
      (nextPermits_serials valid)), none_left]
  rfl

theorem record_ok (valid : t.Valid host) {epoch : ℤ} {through : ℕ} (positive : 0 < epoch)
    (own : t.supervisorEpoch = epoch) (rises : t.registeredAllocationSerial ≤ through)
    (below : through ≤ t.lastAllocationSerial) :
    t.recordAllocationRegistration epoch true through =
      .ok { t with launchAuthorityRequired := true, registeredAllocationSerial := through } := by
  have shape : ¬(epoch ≤ 0 ∨ MAX_SERIAL < through ∨ (true = false ∧ through ≠ 0)) := by
    have small := below.trans valid.bounded
    simp only [Bool.true_eq_false, false_and, or_false]
    omega
  rw [Tables.recordAllocationRegistration, seq_of_ok (ensure_ok.mpr shape),
    seq_of_ok (ensure_ok.mpr ⟨own, .inr rfl, rises, below⟩)]
  rfl

end

/-! ### The one controller -/

/-- The last controller is `c`. -/
def with_last (s : Registration) (c : Controller) : Registration :=
  { s with controllers := s.controllers ++ [c] }

theorem last_controller (s : Registration) (c : Controller) (next : Controller → Registration) :
    (s.with_last c).withController s.controllers.length next = next c := by
  rw [withController, with_last, List.getElem?_concat_length]

theorem last_resume (s : Registration) (c : Controller) (point : Point) :
    (s.with_last c).resume s.controllers.length c point = s.with_last { c with point } := by
  simp [resume, with_last]

/-- The host leaves a call it took up. -/
def settle : Event := .host ⟨.advance true .done, trivial⟩

section
variable {texts : Texts} {host : HostId} {b : Registration} {tables : Tables} {epoch : ℤ}
  {call through : ℕ} {i : ℕ}

/-- A call that was never sent. -/
theorem step_undelivered {granted : Bool} {write : Write} (unsent : b.calls[call]? = none) :
    b.step texts host (.deliver call granted write) = b := by
  rw [step, deliver, unsent]

/-- A host that serves no call leaves none. -/
theorem step_settled {p : Launch.Process} (up : b.root.Up p) :
    b.step texts host settle = { b with serving := none } := by
  have rested : b.root.step texts host (.advance true .done) = b.root := by
    rw [Launch.step, up.process]
    dsimp only
    rw [Launch.advance, up.point]
  have nothing : acknowledged b.root .done = none := by
    rw [acknowledged, up.process, Option.bind_some, up.point]
  have silent : b.answer .done = [] := by
    unfold answer
    rw [nothing]
    split <;> simp_all
  rw [settle, step, internal]
  dsimp only
  rw [rested, silent, List.append_nil]

theorem step_unheard {thread : ℕ} (unsent : b.replies[i]? = none) :
    b.step texts host (.receive thread (some i)) = b := by
  rw [step, unsent]

theorem step_rested :
    (b.with_last { epoch, point := .synced through }).step texts host
      (.accept b.controllers.length) = b.with_last { epoch, point := .synced through } := by
  rw [step, last_controller]
  rfl

/-- The mark arrives. -/
theorem step_observed (given : b.replies[i]? =
    some { call, reportingEpoch := epoch, registeredThrough := through }) :
    (b.with_last { epoch, point := .inspecting call }).step texts host
      (.receive b.controllers.length (some i)) =
    b.with_last { epoch, point := .observed through } := by
  have heard : (b.with_last { epoch, point := .inspecting call }).replies[i]? =
      some { call, reportingEpoch := epoch, registeredThrough := through } := given
  rw [step, heard]
  dsimp only
  rw [last_controller]
  unfold receive
  dsimp only
  rw [if_pos rfl, if_pos rfl]
  exact last_resume b _ _

/-- The host has registered the batch. -/
theorem step_acknowledged {expected issued : ℕ} (given : b.replies[i]? =
    some { call, reportingEpoch := epoch, registeredThrough := through })
    (all : expected ≤ through) (within : through ≤ issued) :
    (b.with_last { epoch, point := .registering call expected issued }).step texts host
      (.receive b.controllers.length (some i)) =
    b.with_last { epoch, point := .acknowledged through } := by
  have heard : (b.with_last { epoch, point := .registering call expected issued }).replies[i]? =
      some { call, reportingEpoch := epoch, registeredThrough := through } := given
  have shape : ¬(through < expected ∨ issued < through ∨ epoch ≠ epoch) := by
    simp only [ne_eq, not_true_eq_false, or_false]
    omega
  rw [step, heard]
  dsimp only
  rw [last_controller]
  unfold receive
  dsimp only
  rw [if_pos rfl, if_neg shape]
  exact last_resume b _ _

theorem step_accepted (recorded : b.tables.recordAllocationRegistration epoch true through = .ok tables) :
    (b.with_last { epoch, point := .observed through }).step texts host
      (.accept b.controllers.length) =
    { b with tables }.with_last { epoch, point := .accepted through } := by
  have saved : (b.with_last { epoch, point := .observed through }).tables.recordAllocationRegistration
      epoch true through = .ok tables := recorded
  rw [step, last_controller]
  unfold accept
  dsimp only
  rw [saved]
  exact last_resume { b with tables } _ _

theorem step_synced (recorded : b.tables.recordAllocationRegistration epoch true through = .ok tables) :
    (b.with_last { epoch, point := .acknowledged through }).step texts host
      (.accept b.controllers.length) =
    { b with tables }.with_last { epoch, point := .synced through } := by
  have saved : (b.with_last { epoch, point := .acknowledged through }).tables.recordAllocationRegistration
      epoch true through = .ok tables := recorded
  rw [step, last_controller]
  unfold accept
  dsimp only
  rw [saved]
  exact last_resume { b with tables } _ _

/-- Nothing is behind the mark. -/
theorem step_idle {batch : PermitBatch}
    (read : b.tables.allocationPermitsAfter host through = .ok batch)
    (issued : batch.hasUnissuedAllocations = false) (empty : batch.permits = []) :
    (b.with_last { epoch, point := .accepted through }).step texts host
      (.read b.controllers.length) =
    b.with_last { epoch, point := .synced through } := by
  have found : (b.with_last { epoch, point := .accepted through }).tables.allocationPermitsAfter
      host through = .ok batch := read
  rw [step, last_controller]
  unfold Registration.read
  dsimp only
  rw [found]
  dsimp only
  rw [if_neg (by simp [issued]), empty]
  exact last_resume b _ _

/-- The next batch goes out. -/
theorem step_read {batch : PermitBatch} {last : Permit}
    (read : b.tables.allocationPermitsAfter host through = .ok batch)
    (issued : batch.hasUnissuedAllocations = false) (ends : batch.permits.getLast? = some last) :
    (b.with_last { epoch, point := .accepted through }).step texts host
      (.read b.controllers.length) =
    (b.send { reportingEpoch := epoch, permits := batch.permits }).with_last
      { epoch, point := .registering b.calls.length last.serial batch.issuedThrough } := by
  have found : (b.with_last { epoch, point := .accepted through }).tables.allocationPermitsAfter
      host through = .ok batch := read
  rw [step, last_controller]
  unfold Registration.read
  dsimp only
  rw [found]
  dsimp only
  rw [if_neg (by simp [issued]), ends]
  exact last_resume (b.send { reportingEpoch := epoch, permits := batch.permits }) _ _

end

section
variable {texts : Texts} {host : HostId} {s : Registration} {p : Launch.Process}

/-- A call that reaches the host and whose reply is not lost. -/
theorem exchange {call : ℕ} {request : Call} {file : Stored AuthorityFile} {current : Checkpoint}
    (up : s.root.Up p) (sent : s.calls[call]? = some request)
    (taken : s.root.step texts host (.sync request.reportingEpoch request.permits true .done) =
      { s.root with file }.resume p (.syncing current))
    (covered : p.journal.launchAuthority.registeredThrough ≤ current.registeredThrough) :
    ∃ root q, root.file = file ∧ root.Up q ∧ q.epoch = p.epoch ∧
      s.runs texts host [.deliver call true .done, settle] =
        { s with
          root, serving := none
          replies := s.replies ++ [{ call, reportingEpoch := current.epoch
                                     registeredThrough := current.registeredThrough }] } := by
  let syncing : Launch := { s.root with file }.resume p (.syncing current)
  have busy : syncing.process ≠ some p := by
    intro same
    have point := congrArg Launch.Process.point (Option.some.inj same)
    rw [up.point] at point
    cases point
  have delivered : s.step texts host (.deliver call true .done) =
      { s with root := syncing, serving := some call } := by
    rw [step, deliver, sent, up.process]
    dsimp only
    rw [if_pos up.point, taken, if_neg busy]
  obtain ⟨q, again, epoch, same⟩ := @Launch.acknowledge_done texts host syncing
    { p with point := .syncing current } current rfl rfl up.clean
  have answered : acknowledged syncing .done = some current := by
    have kept : ¬(current.registeredThrough < p.journal.launchAuthority.registeredThrough ∨
        (p.journal.launchAuthority ≠ current ∧ Write.done ≠ Write.done)) := by
      simpa using covered
    change (if _ then none else some current) = _
    rw [if_neg kept]
  refine ⟨syncing.step texts host (.advance true .done), q, same, again, epoch, ?_⟩
  rw [runs, run_cons, delivered, run_cons, run_nil, settle, step, internal]
  dsimp only
  rw [answer]
  dsimp only
  rw [answered]

/-- The host has the issued permits up to its mark, so the next ones are new to its table. -/
theorem next_batch (inv : Inv host s)
    (room : s.root.file.visible.ledger.entries.length + MAX_BATCH ≤ MAX_ENTRIES) {batch : List Permit}
    (chosen : batch = nextPermits s.tables s.root.file.visible.ledger.through) (some_left : batch ≠ []) :
    Authority.Next s.root.file.visible.ledger batch := by
  subst chosen
  have few : (nextPermits s.tables s.root.file.visible.ledger.through).length ≤ MAX_BATCH := by
    rw [nextPermits_length inv.tables]
    exact Nat.min_le_right _ _
  have issued : ∀ q ∈ s.root.file.visible.ledger.entries.map (·.permit) ++
      nextPermits s.tables s.root.file.visible.ledger.through, q ∈ s.tables.permits := by
    intro q listed
    rcases List.mem_append.mp listed with old | new
    · obtain ⟨e, member, rfl⟩ := List.mem_map.mp old
      exact inv.retained.1.1 e member
    · exact nextPermits_issued new
  refine ⟨some_left, nextPermits_serials inv.tables, few, by omega, fun q listed => ?_,
    fun q listed => (inv.tables.permits q (nextPermits_issued listed)).2,
    fun q listed r other => inv.tables.allocation q (issued q listed) r (issued r other),
    fun q listed r other => inv.tables.operation q (issued q listed) r (issued r other),
    fun q listed r other => inv.tables.generation q (issued q listed) r (issued r other)⟩
  have permit := nextPermits_issued listed
  exact ⟨(inv.tables.permits q permit).1,
    (inv.tables.hosts q permit).trans inv.root.sound.1.host.symm⟩

/-- The first half: the mark is read and recorded. -/
theorem observes (inv : Inv host s) (up : s.root.Up p) (own : p.epoch = s.tables.supervisorEpoch) :
    ∃ root q, root.file = s.root.file.sync ∧ root.Up q ∧ q.epoch = p.epoch ∧
      s.runs texts host [.begin p.epoch true, .deliver s.calls.length true .done, settle,
        .receive s.controllers.length (some s.replies.length), .accept s.controllers.length] =
      Registration.with_last
        { s with
          tables := { s.tables with
                      launchAuthorityRequired := true
                      registeredAllocationSerial := s.root.file.visible.ledger.through }
          root, serving := none
          calls := s.calls ++ [{ reportingEpoch := p.epoch, permits := [] }]
          replies := s.replies ++
            [{ call := s.calls.length, reportingEpoch := p.epoch
               registeredThrough := s.root.file.visible.ledger.through }] }
        { epoch := p.epoch, point := .accepted s.root.file.visible.ledger.through } := by
  have listed : (s.calls ++ [{ reportingEpoch := p.epoch, permits := [] }])[s.calls.length]? =
      some { reportingEpoch := p.epoch, permits := [] } := List.getElem?_concat_length
  obtain ⟨root, q, file, again, epoch, exchanged⟩ := @exchange texts host
    ((s.send { reportingEpoch := p.epoch, permits := [] }).with_last
      { epoch := p.epoch, point := .inspecting s.calls.length }) p s.calls.length
    { reportingEpoch := p.epoch, permits := [] } _ _ up listed
    (Launch.sync_inspects inv.root up) (up.covered inv.root)
  refine ⟨root, q, file, again, epoch, ?_⟩
  let heard : Registration :=
    { s with
      root, serving := none
      calls := s.calls ++ [{ reportingEpoch := p.epoch, permits := [] }]
      replies := s.replies ++
        [{ call := s.calls.length, reportingEpoch := p.epoch
           registeredThrough := s.root.file.visible.ledger.through }] }
  have answered : s.runs texts host
      [.begin p.epoch true, .deliver s.calls.length true .done, settle] =
      heard.with_last { epoch := p.epoch, point := .inspecting s.calls.length } := exchanged
  have given : heard.replies[s.replies.length]? =
      some { call := s.calls.length, reportingEpoch := p.epoch
             registeredThrough := s.root.file.visible.ledger.through } := List.getElem?_concat_length
  have observed := @step_observed texts host heard _ _ _ _ given
  have accepted := @step_accepted texts host heard _ _ _
    (record_ok inv.tables (up.positive inv.root) own.symm inv.registered.1 inv.retained.1.2)
  calc s.runs texts host [.begin p.epoch true, .deliver s.calls.length true .done, settle,
        .receive s.controllers.length (some s.replies.length), .accept s.controllers.length]
    _ = (s.runs texts host [.begin p.epoch true, .deliver s.calls.length true .done, settle]).runs
          texts host [.receive s.controllers.length (some s.replies.length),
            .accept s.controllers.length] := rfl
    _ = ((heard.with_last { epoch := p.epoch, point := .inspecting s.calls.length }).step texts host
          (.receive s.controllers.length (some s.replies.length))).step texts host
            (.accept s.controllers.length) := by rw [answered]; rfl
    _ = (heard.with_last
          { epoch := p.epoch, point := .observed s.root.file.visible.ledger.through }).step texts host
            (.accept s.controllers.length) := congrArg (fun next => step texts host next _) observed
    _ = _ := accepted

/-- The batch ends at the new mark. -/
theorem nextPermits_last {t : Tables} (valid : t.Valid host) {after : ℕ} {last : Permit}
    (ends : (nextPermits t after).getLast? = some last) :
    last.serial = after + (nextPermits t after).length := by
  have serial := congrArg List.getLast? (@nextPermits_serials host t valid after)
  rw [List.getLast?_map, ends, List.getLast?_range'] at serial
  split at serial
  · cases serial
  · have same : last.serial = after + 1 + (nextPermits t after).length - 1 := Option.some.inj serial
    omega

/-- A controller has synced up to `n`, and so have every copy of the host's ledger and the store. -/
structure Registers (b next : Registration) (epoch : ℤ) (n : ℕ) : Prop where
  controllers : next.controllers = b.controllers ++ [{ epoch, point := .synced n }]
  file : next.root.file.Always fun file => file.ledger.through = n
  checkpoint : next.tables.registeredAllocationSerial = n

/-- The second half: the next batch is registered and recorded. -/
theorem registers {through : ℕ}
    (inv : Inv host (s.with_last { epoch := p.epoch, point := .accepted through })) (up : s.root.Up p)
    (own : p.epoch = s.tables.supervisorEpoch)
    (mark : s.root.file.Always fun file => file.ledger.through = through)
    (recorded : s.tables.registeredAllocationSerial = through)
    (issued : ∀ a ∈ s.tables.allocations, ¬s.tables.Unissued host a)
    (room : s.root.file.visible.ledger.entries.length + MAX_BATCH ≤ MAX_ENTRIES) :
    Registers s ((s.with_last { epoch := p.epoch, point := .accepted through }).runs texts host
      [.read s.controllers.length, .deliver s.calls.length true .done, settle,
        .receive s.controllers.length (some s.replies.length), .accept s.controllers.length])
      p.epoch (min s.tables.lastAllocationSerial (through + MAX_BATCH)) := by
  have valid : s.tables.Valid host := inv.tables
  have root : Launch.Inv host s.root := inv.root
  have below : through ≤ s.tables.lastAllocationSerial := by
    rw [← recorded]
    exact valid.registered
  have count := @nextPermits_length host s.tables valid through
  have read := permitsAfter_ok valid below issued
  cases ends : (nextPermits s.tables through).getLast? with
  | none =>
    have empty := List.getLast?_eq_none_iff.mp ends
    have idle := @step_idle texts host s p.epoch through _ read rfl empty
    have all : min s.tables.lastAllocationSerial (through + MAX_BATCH) = through := by
      rw [empty, List.length_nil] at count
      simp only [MAX_BATCH] at count ⊢
      omega
    -- The events after the read find nothing to do.
    have ended : (s.with_last { epoch := p.epoch, point := .accepted through }).runs texts host
        [.read s.controllers.length, .deliver s.calls.length true .done, settle,
          .receive s.controllers.length (some s.replies.length), .accept s.controllers.length] =
        { s with serving := none }.with_last { epoch := p.epoch, point := .synced through } := by
      have uncalled : s.calls[s.calls.length]? = none := List.getElem?_eq_none le_rfl
      have unheard : s.replies[s.replies.length]? = none := List.getElem?_eq_none le_rfl
      let synced := s.with_last { epoch := p.epoch, point := .synced through }
      have undelivered := @step_undelivered texts host synced _ true .done uncalled
      have settled := @step_settled texts host synced p up
      have unanswered := @step_unheard texts host { synced with serving := none } _
        s.controllers.length unheard
      rw [runs, run_cons, idle, run_cons, undelivered, run_cons, settled, run_cons, unanswered,
        run_cons, run_nil]
      exact @step_rested texts host { s with serving := none } p.epoch through
    rw [ended, all]
    exact ⟨rfl, mark, recorded⟩
  | some last =>
    have final := nextPermits_last valid ends
    have some_left : nextPermits s.tables through ≠ [] := by
      intro empty
      rw [empty] at ends
      cases ends
    obtain ⟨batch, chosen⟩ : ∃ batch, batch = nextPermits s.tables through := ⟨_, rfl⟩
    have all : through + batch.length = min s.tables.lastAllocationSerial (through + MAX_BATCH) := by
      rw [chosen, count]
      omega
    rw [← chosen] at read ends final some_left
    have went := @step_read texts host s p.epoch through _ last read rfl ends
    have ledger : s.root.file.visible.ledger.through = through := mark.1
    have following : Authority.Next s.root.file.visible.ledger batch :=
      next_batch inv room (by rw [chosen, ← ledger]; rfl) some_left
    have epochs : ∀ q ∈ batch, q.originalEpoch ≤ p.epoch := by
      intro q listed
      rw [own]
      exact valid.epochs q (nextPermits_issued (chosen ▸ listed))
    have listed : (s.calls ++ [{ reportingEpoch := p.epoch, permits := batch }])[s.calls.length]? =
        some { reportingEpoch := p.epoch, permits := batch } := List.getElem?_concat_length
    let waits : Controller :=
      { epoch := p.epoch
        point := .registering s.calls.length last.serial s.tables.lastAllocationSerial }
    obtain ⟨after, q, file, again, epoch, exchanged⟩ := @exchange texts host
      ((s.send { reportingEpoch := p.epoch, permits := batch }).with_last waits) p s.calls.length
      { reportingEpoch := p.epoch, permits := batch } _ _ up listed
      (Launch.sync_registers root up following epochs)
      ((up.covered root).trans (Nat.le_add_right _ _))
    let heard : Registration :=
      { s with
        root := after, serving := none
        calls := s.calls ++ [{ reportingEpoch := p.epoch, permits := batch }]
        replies := s.replies ++
          [{ call := s.calls.length, reportingEpoch := p.epoch
             registeredThrough := s.root.file.visible.ledger.through + batch.length }] }
    have given : heard.replies[s.replies.length]? =
        some { call := s.calls.length, reportingEpoch := p.epoch
               registeredThrough := s.root.file.visible.ledger.through + batch.length } :=
      List.getElem?_concat_length
    have within : through + batch.length ≤ s.tables.lastAllocationSerial := by
      rw [all]
      exact Nat.min_le_left _ _
    rw [ledger] at given
    have acknowledged := @step_acknowledged texts host heard _ _ _ _ _ s.tables.lastAllocationSerial
      given final.le within
    have rises : s.tables.registeredAllocationSerial ≤ through + batch.length := by
      rw [recorded]
      exact Nat.le_add_right _ _
    have synced := @step_synced texts host heard _ _ _
      (record_ok valid (up.positive root) own.symm rises within)
    have ended : (s.with_last { epoch := p.epoch, point := .accepted through }).runs texts host
        [.read s.controllers.length, .deliver s.calls.length true .done, settle,
          .receive s.controllers.length (some s.replies.length), .accept s.controllers.length] =
        ((heard.with_last waits).step texts host
          (.receive s.controllers.length (some s.replies.length))).step texts host
            (.accept s.controllers.length) := by
      rw [runs, run_cons, went]
      exact congrArg (fun next => (step texts host next (.receive s.controllers.length
        (some s.replies.length))).step texts host (.accept s.controllers.length)) exchanged
    rw [ended, acknowledged, synced, ← all]
    refine ⟨rfl, ?_, rfl⟩
    have marked : (batch.foldl Authority.push s.root.file.visible.ledger).through =
        through + batch.length := by
      rw [Authority.foldl_push_through following.serials, ledger]
    change after.file.Always _
    rw [file]
    exact .of marked

end

/-! ### From every state -/

/-- The host is up in the store's epoch, every allocation has its permit, and a batch fits. The host
may still be serving a call. -/
structure Ready (host : HostId) (s : Registration) : Prop where
  up : ∃ p ∈ s.root.process, p.poisoned = false ∧ p.epoch = s.tables.supervisorEpoch ∧
    (p.point = .serving ∨ ∃ current, p.point = .syncing current)
  issued : ∀ a ∈ s.tables.allocations, ¬s.tables.Unissued host a
  room : s.root.file.visible.ledger.entries.length + MAX_BATCH ≤ MAX_ENTRIES

/-- A controller and the host by themselves, and nothing is lost. -/
def syncAlone (s : Registration) : List Event :=
  [.begin s.tables.supervisorEpoch true, .deliver s.calls.length true .done, settle,
    .receive s.controllers.length (some s.replies.length), .accept s.controllers.length,
    .read s.controllers.length, .deliver (s.calls.length + 1) true .done, settle,
    .receive s.controllers.length (some (s.replies.length + 1)), .accept s.controllers.length]

/-- The host first leaves the call it may be serving. -/
def alone (texts : Texts) (host : HostId) (s : Registration) : Registration :=
  let settled := s.step texts host settle
  settled.runs texts host settled.syncAlone

section
variable {texts : Texts} {host : HostId} {s : Registration}

theorem ready_settled (ready : Ready host s) :
    ∃ p, (s.step texts host settle).root.Up p ∧ p.epoch = s.tables.supervisorEpoch ∧
      (s.step texts host settle).root.file = s.root.file := by
  obtain ⟨p, process, clean, own, serving | ⟨current, syncing⟩⟩ := ready.up
  · have up : s.root.Up p := ⟨process, serving, clean⟩
    rw [step_settled up]
    exact ⟨p, up, own, rfl⟩
  · obtain ⟨q, up, same, file⟩ := @Launch.acknowledge_done texts host s.root p current process syncing clean
    exact ⟨q, up, same.trans own, file⟩

theorem runs_inv (inv : Inv host s) {events : List Event} (minted : ∀ event ∈ events, event.Minted) :
    Inv host (s.runs texts host events) := by
  induction events generalizing s with
  | nil => exact inv
  | cons event rest ih =>
    obtain ⟨head, tail⟩ := List.forall_mem_cons.mp minted
    exact ih (step_inv inv head) tail

theorem syncAlone_minted (s : Registration) : ∀ event ∈ s.syncAlone, event.Minted := by
  simp [syncAlone, settle, Event.Minted, Launch.Event.Words]

theorem alone_registers (inv : Inv host s) (ready : Ready host s) :
    Registers s (alone texts host s) s.tables.supervisorEpoch
      (min s.tables.lastAllocationSerial (s.root.file.visible.ledger.through + MAX_BATCH)) := by
  obtain ⟨p, up, own, file⟩ := @ready_settled texts host s ready
  obtain ⟨settled, same⟩ : ∃ settled, settled = s.step texts host settle := ⟨_, rfl⟩
  have kept : Inv host settled := by
    rw [same]
    exact step_inv inv trivial
  have tables : settled.tables = s.tables := by
    rw [same]
    rfl
  have controllers : settled.controllers = s.controllers := by
    rw [same]
    rfl
  rw [← same] at up file
  rw [← tables] at own
  obtain ⟨root, q, synced, again, epoch, first⟩ := @observes texts host settled p kept up own
  rw [← epoch] at first own
  let heard : Registration :=
    { settled with
      tables := { settled.tables with
                  launchAuthorityRequired := true
                  registeredAllocationSerial := settled.root.file.visible.ledger.through }
      root, serving := none
      calls := settled.calls ++ [{ reportingEpoch := q.epoch, permits := [] }]
      replies := settled.replies ++
        [{ call := settled.calls.length, reportingEpoch := q.epoch
           registeredThrough := settled.root.file.visible.ledger.through }] }
  have halfway : Inv host (heard.with_last
      { epoch := q.epoch, point := .accepted settled.root.file.visible.ledger.through }) := by
    rw [← first]
    refine runs_inv kept fun event listed => settled.syncAlone_minted event ?_
    rw [syncAlone, ← own]
    exact List.mem_append_left _ listed
  have mark : heard.root.file.Always
      fun copy => copy.ledger.through = settled.root.file.visible.ledger.through := by
    change root.file.Always _
    rw [synced]
    exact .of rfl
  have unissued : ∀ a ∈ heard.tables.allocations, ¬heard.tables.Unissued host a := by
    change ∀ a ∈ settled.tables.allocations, ¬settled.tables.Unissued host a
    rw [tables]
    exact ready.issued
  have room : heard.root.file.visible.ledger.entries.length + MAX_BATCH ≤ MAX_ENTRIES := by
    change root.file.visible.ledger.entries.length + MAX_BATCH ≤ MAX_ENTRIES
    rw [synced, file]
    exact ready.room
  have second := @registers texts host heard q _ halfway again own mark rfl unissued room
  have calls : heard.calls.length = settled.calls.length + 1 := List.length_append
  have replies : heard.replies.length = settled.replies.length + 1 := List.length_append
  have issued : heard.tables.lastAllocationSerial = settled.tables.lastAllocationSerial := rfl
  have members : heard.controllers.length = settled.controllers.length := rfl
  rw [calls, replies, members, ← first, issued] at second
  have whole : alone texts host s = (settled.runs texts host
      [.begin q.epoch true, .deliver settled.calls.length true .done, settle,
        .receive settled.controllers.length (some settled.replies.length),
        .accept settled.controllers.length]).runs texts host
      [.read settled.controllers.length, .deliver (settled.calls.length + 1) true .done, settle,
        .receive settled.controllers.length (some (settled.replies.length + 1)),
        .accept settled.controllers.length] := by
    rw [alone, ← same]
    rw [syncAlone, ← own]
    rfl
  rw [whole, ← file, ← tables, ← own]
  refine ⟨?_, second.file, second.checkpoint⟩
  rw [← controllers]
  exact second.controllers

end

/-! ### The host and the store agree -/

/-- The permit that was issued with a serial. -/
def Tables.issued (t : Tables) (serial : ℕ) : Option Permit := t.permits.find? (·.serial = serial)

/-- What holds of every run from a provisioned host and the tables of before. -/
structure Agrees (texts : Texts) (host : HostId) (start : Registration) : Prop where
  retained : ∀ events, (∀ event ∈ events, event.Minted) →
    (start.runs texts host events).root.file.Always fun file => ∀ e ∈ file.ledger.entries,
      (start.runs texts host events).tables.issued e.permit.serial = some e.permit
  rises : ∀ before after, (∀ event ∈ before ++ after, event.Minted) →
    (start.runs texts host before).tables.registeredAllocationSerial ≤
      (start.runs texts host (before ++ after)).tables.registeredAllocationSerial
  covered : ∀ events, (∀ event ∈ events, event.Minted) →
    (start.runs texts host events).Covered
      (start.runs texts host events).tables.registeredAllocationSerial
  creates : ∀ events, (∀ event ∈ events, event.Minted) →
    ∀ p ∈ (start.runs texts host events).creates, (start.runs texts host events).Covered p.serial
  syncs : ∀ events, (∀ event ∈ events, event.Minted) → Ready host (start.runs texts host events) →
    Registers (start.runs texts host events) (alone texts host (start.runs texts host events))
      (start.runs texts host events).tables.supervisorEpoch
      (min (start.runs texts host events).tables.lastAllocationSerial
        ((start.runs texts host events).root.file.visible.ledger.through + MAX_BATCH))

section
variable {texts : Texts} {host : HostId} {s : Registration} {tables : Tables} {root : Launch} {epoch : ℤ}

theorem Tables.Valid.issued {t : Tables} (valid : t.Valid host) {p : Permit} (held : p ∈ t.permits) :
    t.issued p.serial = some p := by
  cases found : t.issued p.serial with
  | none => simpa using List.find?_eq_none.mp found p held
  | some q =>
    have same : q.serial = p.serial := by simpa using List.find?_some found
    exact congrArg some (valid.serial_unique (List.mem_of_find?_eq_some found) held same)

theorem runs_rises (inv : Inv host s) {events : List Event} (minted : ∀ event ∈ events, event.Minted) :
    s.tables.registeredAllocationSerial ≤ (s.runs texts host events).tables.registeredAllocationSerial := by
  induction events generalizing s with
  | nil => exact le_rfl
  | cons event rest ih =>
    obtain ⟨head, tail⟩ := List.forall_mem_cons.mp minted
    exact (step_grows inv head).registered.trans (ih (step_inv inv head) tail)

theorem initial_inv (made : Launch.provision texts host epoch = .ok root) (fresh : tables.Fresh) :
    Inv host (initial root tables) := by
  have anchored := Launch.provision_inv made
  obtain ⟨_, made⟩ := seq_ok.mp made
  obtain ⟨ledger, new, made⟩ := bind_ok.mp made
  obtain ⟨file, saved, made⟩ := bind_ok.mp made
  obtain rfl := Launch.save_eq saved
  obtain rfl := pure_ok.mp made
  obtain ⟨owner, new⟩ := seq_ok.mp (mapError_ok.mp new)
  obtain rfl := pure_ok.mp new
  have empty : ∀ {P : Permit → Prop}, ∀ p ∈ tables.permits, P p := by
    intro P p listed
    rw [fresh.none_issued] at listed
    cases listed
  have valid : tables.Valid host := by
    refine ⟨?_, ?_, ?_, fresh.epoch, empty, empty, empty, empty, empty, empty, empty, fresh.minted⟩
    · rw [fresh.none_issued, fresh.serial]
      rfl
    · rw [fresh.serial]
      exact Nat.zero_le _
    · rw [fresh.registered]
      exact Nat.zero_le _
  refine ⟨validUuid_ok.mp owner, anchored, valid, .of ⟨by simp, Nat.zero_le _⟩, ?_, by simp [initial],
    by simp [initial], by simp [initial], by simp [initial]⟩
  change (initial _ tables).Covered tables.registeredAllocationSerial
  rw [fresh.registered]
  exact .of (Nat.zero_le _)

theorem registration_agrees (made : Launch.provision texts host epoch = .ok root) (fresh : tables.Fresh) :
    Agrees texts host (initial root tables) := by
  have start := initial_inv made fresh
  have reached : ∀ {events : List Event}, (∀ event ∈ events, event.Minted) →
      Inv host ((initial root tables).runs texts host events) := fun minted => runs_inv start minted
  refine ⟨?_, ?_, ?_, ?_, ?_⟩
  · intro events minted
    have inv := reached minted
    exact inv.retained.imp fun file held e member => inv.tables.issued (held.1 e member)
  · intro before after minted
    have early := reached fun event listed => minted event (List.mem_append_left _ listed)
    have late : ∀ event ∈ after, event.Minted :=
      fun event listed => minted event (List.mem_append_right _ listed)
    have split : (initial root tables).runs texts host (before ++ after) =
        ((initial root tables).runs texts host before).runs texts host after := run_append _ _ _
    rw [split]
    exact runs_rises early late
  · intro events minted
    exact (reached minted).registered
  · intro events minted p sent
    exact ((reached minted).creates p sent).2
  · intro events minted ready
    exact alone_registers (reached minted) ready

end

/-! A host and a store before the first allocation. -/

def sampleTables : Tables where
  supervisorEpoch := 1
  lastAllocationSerial := 0
  launchAuthorityRequired := false
  registeredAllocationSerial := 0
  allocations := []
  operations := []
  permits := []

theorem sampleTables_fresh : sampleTables.Fresh :=
  ⟨rfl, rfl, rfl, List.nodup_nil, List.nodup_nil, by simp [sampleTables], by decide⟩

theorem registration_agrees_sample :
    Agrees Launch.sampleTexts Authority.sampleHost (initial Launch.sampleRoot sampleTables) :=
  registration_agrees Launch.provision_sample sampleTables_fresh

end Registration
end HudsonSandbox
