import HudsonSandbox.Launch.Root

/-!
# The journal never runs ahead of the authority

`Inv` says how the two files of a root stand to each other in every copy that a crash can leave.
From it the checkpoint of the journal is covered for ever, a writer of another epoch changes
nothing, and a start in a later epoch ends with both files in that epoch: `root_reconciles`.
-/

namespace HudsonSandbox.Launch
open Checked AllocationAuthority AllocationRetirement Stored Run
open Inner (AuthorityFile Checkpoint Texts)

/-! ### The file -/

/-- The ledger is a table of this host as requests can build it. -/
structure Sound (host : HostId) (file : AuthorityFile) : Prop where
  stored : file.ledger.Stored
  host : file.ledger.host = host

/-- The file is not below a checkpoint. -/
def Covers (minimum : Checkpoint) (file : AuthorityFile) : Prop :=
  minimum.epoch ≤ file.epoch ∧ minimum.registeredThrough ≤ file.ledger.through

/-- A save that keeps the epoch and registers no less. -/
structure Moves (host : HostId) (file next : AuthorityFile) : Prop where
  sound : Sound host next
  epoch : next.epoch = file.epoch
  through : file.ledger.through ≤ next.ledger.through

section
variable {texts : Texts} {host : HostId} {file next : AuthorityFile} {minimum : Checkpoint}

theorem load_eq (sound : Sound host file) {ledger : Authority}
    (read : file.load texts host minimum = .ok ledger) :
    ledger = file.ledger ∧ Covers minimum file := by
  obtain ⟨epoch, read⟩ := seq_ok.mp read
  obtain ⟨bytes, written, read⟩ := bind_ok.mp read
  rw [mapError_ok, Authority.encode_stored texts.serde sound.stored] at written
  obtain rfl := Except.ok.inj written
  have decoded := mapError_ok.mp read
  obtain ⟨parsed, _⟩ := Authority.decode_valid decoded
  rw [texts.serde.reads _ sound.stored.readable] at parsed
  obtain rfl := Option.some.inj parsed
  exact ⟨rfl, ensure_ok.mp epoch, Authority.decode_through decoded⟩

theorem load_covered (sound : Sound host file) (covers : Covers minimum file) :
    file.load texts host minimum = .ok file.ledger := by
  have decoded := Authority.decode_bytes texts.serde sound.stored covers.2
  rw [sound.host] at decoded
  rw [AuthorityFile.load, seq_of_ok (ensure_ok.mpr covers.1),
    Authority.encode_stored texts.serde sound.stored]
  exact mapError_ok.mpr decoded

theorem save_eq {epoch : ℤ} {ledger : Authority}
    (saved : AuthorityFile.save texts epoch ledger = .ok next) : next = { epoch, ledger } := by
  obtain ⟨_, _, saved⟩ := bind_ok.mp saved
  exact (pure_ok.mp saved).symm

theorem save_stored {epoch : ℤ} {ledger : Authority} (stored : ledger.Stored) :
    AuthorityFile.save texts epoch ledger = .ok { epoch, ledger } := by
  rw [AuthorityFile.save, Authority.encode_stored texts.serde stored]
  rfl

/-- A ledger request that is accepted keeps the epoch it was made under. -/
theorem mutate_moves (sound : Sound host file) {reportingEpoch : ℤ} {request : Authority.Request}
    (words : request.Words)
    (saved : mutate texts host file minimum reportingEpoch request = .ok next) :
    file.epoch = reportingEpoch ∧ Moves host file next ∧
      next.ledger = file.ledger.step texts.json texts.intents texts.sha256 request := by
  have stored : (file.ledger.step texts.json texts.intents texts.sha256 request).Stored :=
    Authority.step_stored texts.serde sound.stored words
  have moved : Authority.Advances file.ledger
      (file.ledger.step texts.json texts.intents texts.sha256 request) _ _ :=
    Authority.step_advances texts.serde sound.stored words
  have ends : ∀ {ledger : Authority}, ledger = file.ledger →
      file.change texts (ledger.apply texts.json texts.intents texts.sha256 request) = .ok next →
      Moves host file next ∧
        next.ledger = file.ledger.step texts.json texts.intents texts.sha256 request := by
    rintro ledger rfl changed
    obtain ⟨_, changed⟩ := seq_ok.mp changed
    obtain rfl := save_eq changed
    exact ⟨⟨⟨stored, moved.host.trans sound.host⟩, rfl, moved.through⟩, rfl⟩
  cases request with
  | register permits =>
    obtain ⟨ledger, read, saved⟩ := bind_ok.mp saved
    obtain ⟨epoch, saved⟩ := seq_ok.mp saved
    obtain ⟨_, saved⟩ := seq_ok.mp saved
    exact ⟨ensure_ok.mp epoch, ends (load_eq sound read).1 saved⟩
  | fence | complete | forget | restart =>
    obtain ⟨ledger, read, saved⟩ := bind_ok.mp saved
    obtain ⟨epoch, saved⟩ := seq_ok.mp saved
    exact ⟨ensure_ok.mp epoch, ends (load_eq sound read).1 saved⟩

theorem Moves.covers (moved : Moves host file next) (covers : Covers minimum file) :
    Covers minimum next :=
  ⟨by rw [moved.epoch]; exact covers.1, covers.2.trans moved.through⟩

end

/-! ### The invariant -/

/-- One copy of the journal beside one copy of the authority. -/
structure Anchored (journal : Saved) (file : AuthorityFile) : Prop where
  positive : 0 < journal.launchAuthority.epoch
  covers : Covers journal.launchAuthority file
  behind : file.epoch ≤ journal.epoch

/-- What a process at its point knows of the authority. -/
def Reached (s : Launch) (p : Process) : Prop :=
  match p.point with
  | .opened | .attached => True
  | .inspected current => s.file.Always fun file => file.epoch = current.epoch
  | .advanced => s.file.Always fun file => file.epoch = p.epoch
  | .bounded current => current.epoch = p.epoch ∧
      s.file.Always fun file => file.epoch = p.epoch ∧ Covers current file
  | .serving => s.file.Always (fun file => file.epoch = p.epoch) ∧
      p.journal.launchAuthority.epoch = p.epoch ∧ (p.poisoned = false → s.journal = .of p.journal)
  | .syncing current => s.file.Always (fun file => file.epoch = p.epoch) ∧
      p.journal.launchAuthority.epoch = p.epoch ∧ (p.poisoned = false → s.journal = .of p.journal) ∧
      current.epoch = p.epoch ∧ s.file.Always (Covers current)

structure Attends (s : Launch) (p : Process) : Prop where
  own : p.journal.epoch = p.epoch
  saved : s.journal.Always fun journal => journal.epoch = p.epoch
  anchored : s.file.Always (Anchored p.journal)
  floor : s.file.Always (Covers p.floor)
  reached : Reached s p

structure Inv (host : HostId) (s : Launch) : Prop where
  sound : s.file.Always (Sound host)
  anchored : s.journal.Always fun journal => s.file.Always (Anchored journal)
  process : ∀ p ∈ s.process, Attends s p

section
variable {texts : Texts} {host : HostId} {s : Launch} {p : Process}

theorem Anchored.moves {journal : Saved} {file next : AuthorityFile} (moved : Moves host file next)
    (anchored : Anchored journal file) : Anchored journal next :=
  ⟨anchored.positive, moved.covers anchored.covers, by rw [moved.epoch]; exact anchored.behind⟩

/-- A predicate that survives a save of the visible file survives its write, however it ends. -/
theorem always_write {P : AuthorityFile → Prop} {file : Stored AuthorityFile} {next : AuthorityFile}
    (always : file.Always P) (step : P file.visible → P next) (write : Write) :
    (file.write next write).Always P :=
  always.write (step always.1) write

/-- What a process knows is kept when the file moves within its epoch. -/
theorem Attends.rewrite {next : AuthorityFile} (attends : Attends s p)
    (moved : Moves host s.file.visible next) (write : Write) :
    Attends { s with file := s.file.write next write } p := by
  have epochs : ∀ {epoch : ℤ}, s.file.Always (fun file => file.epoch = epoch) →
      (s.file.write next write).Always fun file => file.epoch = epoch :=
    fun same => always_write same (fun held => moved.epoch.trans held) write
  have covered : ∀ {c : Checkpoint}, s.file.Always (Covers c) →
      (s.file.write next write).Always (Covers c) :=
    fun covers => always_write covers moved.covers write
  refine ⟨attends.own, attends.saved, always_write attends.anchored (Anchored.moves moved) write,
    covered attends.floor, ?_⟩
  have reached := attends.reached
  unfold Reached at reached ⊢
  split at reached
  · trivial
  · trivial
  · exact epochs reached
  · exact epochs reached
  · refine ⟨reached.1, always_write reached.2 (fun held => ?_) write⟩
    exact ⟨moved.epoch.trans held.1, moved.covers held.2⟩
  · exact ⟨epochs reached.1, reached.2⟩
  · obtain ⟨same, own, journal, current, covers⟩ := reached
    exact ⟨epochs same, own, journal, current, covered covers⟩

theorem Inv.rewrite {next : AuthorityFile} (inv : Inv host s)
    (moved : Moves host s.file.visible next) (write : Write) :
    Inv host { s with file := s.file.write next write } :=
  ⟨always_write inv.sound (fun _ => moved.sound) write,
    inv.anchored.imp fun _ anchored => always_write anchored (Anchored.moves moved) write,
    fun p attends => (inv.process p attends).rewrite moved write⟩

theorem Attends.sync (attends : Attends s p) : Attends { s with file := s.file.sync } p := by
  refine ⟨attends.own, attends.saved, attends.anchored.sync, attends.floor.sync, ?_⟩
  have reached := attends.reached
  unfold Reached at reached ⊢
  split at reached
  · trivial
  · trivial
  · exact reached.sync
  · exact reached.sync
  · exact ⟨reached.1, reached.2.sync⟩
  · exact ⟨reached.1.sync, reached.2⟩
  · obtain ⟨same, own, journal, current, covers⟩ := reached
    exact ⟨same.sync, own, journal, current, covers.sync⟩

theorem Inv.sync (inv : Inv host s) : Inv host { s with file := s.file.sync } :=
  ⟨inv.sound.sync, inv.anchored.imp fun _ anchored => anchored.sync,
    fun p attends => (inv.process p attends).sync⟩

theorem Inv.exit (inv : Inv host s) : Inv host s.exit :=
  ⟨inv.sound, inv.anchored, by rintro p ⟨⟩⟩

/-- A process goes on to a point whose knowledge it has. -/
theorem Inv.resume (inv : Inv host s) (attends : Attends s p) {point : Point}
    (reached : Reached s { p with point }) : Inv host (s.resume p point) := by
  refine ⟨inv.sound, inv.anchored, ?_⟩
  rintro q ⟨⟩
  exact ⟨attends.own, attends.saved, attends.anchored, attends.floor, reached⟩

/-! ### Each step -/

theorem openJournal_inv (inv : Inv host s) (epoch : ℤ) (accepted : Bool) (write : Write) :
    Inv host (s.openJournal epoch accepted write) := by
  unfold openJournal
  split
  · exact inv
  next free =>
    split
    next advances =>
      have anchored : s.file.Always (Anchored { s.journal.visible with epoch }) :=
        inv.anchored.1.imp fun file held =>
          ⟨held.positive, held.covers, held.behind.trans advances.1.le⟩
      have journals := inv.anchored.write anchored write
      dsimp only
      split
      next done =>
        subst done
        refine ⟨inv.sound, journals, ?_⟩
        rintro p ⟨⟩
        exact ⟨rfl, .of rfl, anchored, anchored.imp fun _ held => held.covers, trivial⟩
      next =>
        refine ⟨inv.sound, journals, ?_⟩
        rw [Option.not_isSome_iff_eq_none.mp free]
        rintro p ⟨⟩
    next => exact inv

theorem attach_inv (inv : Inv host s) (attends : Attends s p) (granted : Bool) :
    Inv host (s.attach texts host p granted) := by
  unfold attach
  dsimp only
  split
  · split
    · exact inv.exit
    · exact inv.resume attends trivial
  · exact inv.exit

theorem retainedCheckpoint_eq {file : AuthorityFile} {minimum current : Checkpoint}
    (sound : Sound host file) (read : retainedCheckpoint texts host file minimum = .ok current) :
    current = { epoch := file.epoch, registeredThrough := file.ledger.through } := by
  obtain ⟨ledger, loaded, read⟩ := bind_ok.mp read
  obtain ⟨rfl, _⟩ := load_eq sound loaded
  exact (pure_ok.mp read).symm

theorem checkpoint_eq {file : AuthorityFile} {minimum current : Checkpoint} {reportingEpoch : ℤ}
    (sound : Sound host file)
    (read : checkpoint texts host file minimum reportingEpoch = .ok current) :
    file.epoch = reportingEpoch ∧
      current = { epoch := file.epoch, registeredThrough := file.ledger.through } := by
  obtain ⟨ledger, loaded, read⟩ := bind_ok.mp read
  obtain ⟨rfl, _⟩ := load_eq sound loaded
  obtain ⟨epoch, read⟩ := seq_ok.mp read
  exact ⟨ensure_ok.mp epoch, (pure_ok.mp read).symm⟩

theorem inspect_inv (inv : Inv host s) (attends : Attends s p) (granted : Bool) :
    Inv host (s.inspect texts host p granted) := by
  unfold inspect
  split
  · split
    · exact inv.exit
    next current read =>
      obtain rfl := retainedCheckpoint_eq inv.sound.1 read
      exact inv.sync.resume attends.sync (.of rfl)
  · exact inv.exit

theorem advanceEpoch_eq {file next : AuthorityFile} {minimum : Checkpoint} {previous epoch : ℤ}
    (sound : Sound host file)
    (saved : advanceEpoch texts host file minimum previous epoch = .ok next) :
    file.epoch = previous ∧ file.epoch < epoch ∧ next.epoch = epoch ∧ next.ledger = file.ledger := by
  obtain ⟨ledger, loaded, saved⟩ := bind_ok.mp saved
  obtain ⟨rfl, _⟩ := load_eq sound loaded
  obtain ⟨advances, saved⟩ := seq_ok.mp saved
  obtain ⟨same, later⟩ := ensure_ok.mp advances
  obtain rfl := save_eq saved
  exact ⟨same, later, rfl, rfl⟩

/-- The journals are in the process's epoch before the authority is. -/
theorem advanceAuthority_inv (inv : Inv host s) (attends : Attends s p) {current : Checkpoint}
    (point : p.point = .inspected current) (granted : Bool) (write : Write) :
    Inv host (s.advanceAuthority texts host p current granted write) := by
  have reached := attends.reached
  rw [Reached, point] at reached
  unfold advanceAuthority
  split
  next later =>
    split
    · split
      · exact inv.exit
      next next saved =>
        obtain ⟨_, advances, epoch, ledger⟩ := advanceEpoch_eq inv.sound.1 saved
        have covered : ∀ {c : Checkpoint}, Covers c s.file.visible → Covers c next :=
          fun held => ⟨held.1.trans (by rw [epoch]; exact advances.le), by rw [ledger]; exact held.2⟩
        have anchored : ∀ {journal : Saved}, p.epoch ≤ journal.epoch →
            s.file.Always (Anchored journal) → (s.file.write next write).Always (Anchored journal) :=
          fun own held => always_write held (fun before =>
            ⟨before.positive, covered before.covers, by rw [epoch]; exact own⟩) write
        have sound : (s.file.write next write).Always (Sound host) :=
          always_write inv.sound (fun held =>
            ⟨by rw [ledger]; exact held.stored, by rw [ledger]; exact held.host⟩) write
        have journals : s.journal.Always fun journal =>
            (s.file.write next write).Always (Anchored journal) :=
          ⟨anchored attends.saved.1.ge inv.anchored.1, anchored attends.saved.2.ge inv.anchored.2⟩
        dsimp only
        split
        next done =>
          subst done
          refine ⟨sound, journals, ?_⟩
          rintro q ⟨⟩
          exact ⟨attends.own, attends.saved, anchored attends.own.ge attends.anchored,
            .of (covered attends.floor.1), .of epoch⟩
        next => exact ⟨sound, journals, by rintro q ⟨⟩⟩
    · exact inv.exit
  · split
    next same =>
      exact inv.resume attends (reached.imp fun _ held => held.trans same)
    · exact inv.exit

theorem bound_inv (inv : Inv host s) (attends : Attends s p) (granted : Bool) :
    Inv host (s.bound texts host p granted) := by
  unfold bound
  split
  · split
    · exact inv.exit
    next current read =>
      obtain ⟨own, rfl⟩ := checkpoint_eq inv.sound.1 read
      exact inv.sync.resume attends.sync ⟨own, .of ⟨own, le_rfl, le_rfl⟩⟩
  · exact inv.exit

/-- A checkpoint of the process's own epoch may be saved once the files cover it. -/
theorem record_inv (inv : Inv host s) (attends : Attends s p) {current : Checkpoint}
    (own : current.epoch = p.epoch)
    (covers : s.file.Always fun file => file.epoch = p.epoch ∧ Covers current file) (write : Write) :
    Inv host (s.record p current write) := by
  have positive : 0 < p.epoch := by
    have held := attends.anchored.1
    exact lt_of_lt_of_le held.positive (held.covers.1.trans covers.1.1.le)
  have anchored : s.file.Always (Anchored { p.journal with launchAuthority := current }) :=
    covers.imp fun file held =>
      ⟨by rw [own]; exact positive, held.2, by rw [attends.own]; exact held.1.le⟩
  unfold record
  refine ⟨inv.sound, inv.anchored.write anchored write, ?_⟩
  rintro q ⟨⟩
  have same : ({ p.journal with launchAuthority := current } : Saved).epoch = p.epoch := attends.own
  refine ⟨attends.own, attends.saved.write same write, anchored, attends.floor, ?_⟩
  refine ⟨covers.imp fun _ held => held.1, own, fun clean => ?_⟩
  have done : write = .done := by simpa using clean
  rw [done]
  rfl

theorem serve_inv (inv : Inv host s) (attends : Attends s p) {current : Checkpoint}
    (point : p.point = .bounded current) (write : Write) : Inv host (s.serve p current write) := by
  have reached := attends.reached
  rw [Reached, point] at reached
  have recorded := record_inv inv attends reached.1 reached.2 write
  unfold serve
  split
  · exact recorded
  · exact recorded.exit

theorem acknowledge_inv (inv : Inv host s) (attends : Attends s p) {current : Checkpoint}
    (point : p.point = .syncing current) (write : Write) :
    Inv host (s.acknowledge p current write) := by
  have reached := attends.reached
  rw [Reached, point] at reached
  obtain ⟨same, own, journal, epoch, covers⟩ := reached
  have serving : Reached s { p with point := .serving } := ⟨same, own, journal⟩
  unfold acknowledge
  dsimp only
  split
  · exact inv.resume attends serving
  · split
    · exact record_inv inv attends epoch ⟨⟨same.1, covers.1⟩, same.2, covers.2⟩ write
    · exact inv.resume attends serving

theorem advance_inv (inv : Inv host s) (attends : Attends s p) (granted : Bool) (write : Write) :
    Inv host (s.advance texts host p granted write) := by
  unfold advance
  split
  · exact attach_inv inv attends granted
  · exact inspect_inv inv attends granted
  next point => exact advanceAuthority_inv inv attends point granted write
  · exact bound_inv inv attends granted
  next point => exact serve_inv inv attends point write
  · exact inv
  next point => exact acknowledge_inv inv attends point write

theorem sync_inv (inv : Inv host s) (attends : Attends s p) {reportingEpoch : ℤ}
    {permits : List Permit} (words : ∀ p ∈ permits, p.Words) (granted : Bool) (write : Write) :
    Inv host (s.sync texts host p reportingEpoch permits granted write) := by
  unfold sync
  split
  next ready =>
    obtain ⟨point, clean, rfl, _⟩ := ready
    have reached := attends.reached
    rw [Reached, point] at reached
    obtain ⟨same, own, journal⟩ := reached
    split
    · split
      · exact inv
      next current read =>
        obtain ⟨epoch, rfl⟩ := checkpoint_eq inv.sound.1 read
        exact inv.sync.resume attends.sync
          ⟨same.sync, own, journal, epoch, .of ⟨le_rfl, le_rfl⟩⟩
    · split
      · exact inv
      split
      · exact inv
      next next saved =>
        have request : mutate texts host s.file.visible p.floor p.epoch (.register permits) = .ok next :=
          saved
        have wire : Authority.Request.Words (.register permits) := words
        obtain ⟨epoch, moved, _⟩ := mutate_moves inv.sound.1 wire request
        have written := inv.rewrite moved write
        dsimp only
        split
        next done =>
          subst done
          have attending := attends.rewrite moved .done
          refine written.resume attending
            ⟨.of (moved.epoch.trans epoch), own, journal, moved.epoch.trans epoch, .of ⟨le_rfl, le_rfl⟩⟩
        · exact written
  · exact inv

theorem save_inv (inv : Inv host s) (attends : Attends s p) (write : Write) :
    Inv host (s.save p write) := by
  unfold save
  split
  next ready =>
    have reached := attends.reached
    rw [Reached, ready.1] at reached
    obtain ⟨same, own, _⟩ := reached
    refine record_inv inv attends own ?_ write
    exact ⟨⟨same.1, attends.anchored.1.covers⟩, same.2, attends.anchored.2.covers⟩
  · exact inv

theorem compete_inv (inv : Inv host s) {minimum : Checkpoint} {reportingEpoch : ℤ}
    {request : Authority.Request} (words : request.Words) (write : Write) :
    Inv host (s.compete texts host minimum reportingEpoch request write) := by
  unfold compete
  split
  · exact inv
  next next saved => exact inv.rewrite (mutate_moves inv.sound.1 words saved).2.1 write

theorem powerLoss_inv (inv : Inv host s) (journal authority : Bool) :
    Inv host (s.powerLoss journal authority) := by
  refine ⟨inv.sound.recover authority, ?_, by rintro p ⟨⟩⟩
  exact (inv.anchored.recover journal).imp fun _ anchored => anchored.recover authority

theorem step_inv (inv : Inv host s) {event : Event} (words : event.Words) :
    Inv host (s.step texts host event) := by
  cases event with
  | openJournal epoch accepted write => exact openJournal_inv inv epoch accepted write
  | advance granted write =>
    simp only [step]
    split
    · exact inv
    next p held => exact advance_inv inv (inv.process p held) granted write
  | sync reportingEpoch permits granted write =>
    simp only [step]
    split
    · exact inv
    next p held => exact sync_inv inv (inv.process p held) words granted write
  | save write =>
    simp only [step]
    split
    · exact inv
    next p held => exact save_inv inv (inv.process p held) write
  | compete minimum reportingEpoch request write => exact compete_inv inv words write
  | crash => exact inv.exit
  | powerLoss journal authority => exact powerLoss_inv inv journal authority

theorem runs_inv (inv : Inv host s) {events : List Event} (words : ∀ event ∈ events, event.Words) :
    Inv host (runs texts host s events) := by
  induction events generalizing s with
  | nil => exact inv
  | cons event rest ih =>
    obtain ⟨head, tail⟩ := List.forall_mem_cons.mp words
    exact ih (step_inv inv head) tail

/-! ### What an event does to the authority -/

def Event.request : Event → Option Authority.Request
  | .sync _ permits _ _ => some (.register permits)
  | .compete _ _ request _ => some request
  | .openJournal .. | .advance .. | .save _ | .crash | .powerLoss .. => none

/-- Everything that can become of the file in one step, in which `request` may be saved. -/
inductive FileStep (texts : Texts) (host : HostId) (file : Stored AuthorityFile) :
    Option Authority.Request → Stored AuthorityFile → Prop where
  | kept {request} : FileStep texts host file request file
  | synced {request} : FileStep texts host file request file.sync
  | recovered {request} (survives : Bool) : FileStep texts host file request (file.recover survives)
  | advanced {request} (next : AuthorityFile) (write : Write)
      (ledger : next.ledger = file.visible.ledger) :
      FileStep texts host file request (file.write next write)
  | mutated (request : Authority.Request) (next : AuthorityFile) (write : Write)
      (ledger : next.ledger =
        file.visible.ledger.step texts.json texts.intents texts.sha256 request)
      (moved : Moves host file.visible next) :
      FileStep texts host file (some request) (file.write next write)

theorem advance_file (inv : Inv host s) (granted : Bool) (write : Write) :
    FileStep texts host s.file none (s.advance texts host p granted write).file := by
  unfold advance
  split
  · unfold attach
    dsimp only
    repeat' split
    all_goals exact .kept
  · unfold inspect
    repeat' split
    · exact .kept
    · exact .synced
    · exact .kept
  next current point =>
    unfold advanceAuthority
    split
    · split
      · split
        · exact .kept
        next next saved =>
          obtain ⟨_, _, _, ledger⟩ := advanceEpoch_eq inv.sound.1 saved
          dsimp only
          split
          · exact .advanced next write ledger
          · exact .advanced next write ledger
      · exact .kept
    · split
      · exact .kept
      · exact .kept
  · unfold bound
    repeat' split
    · exact .kept
    · exact .synced
    · exact .kept
  · unfold serve
    split
    · exact .kept
    · exact .kept
  · exact .kept
  · unfold acknowledge
    dsimp only
    repeat' split
    all_goals exact .kept

theorem sync_file (inv : Inv host s) {reportingEpoch : ℤ} {permits : List Permit}
    (words : ∀ p ∈ permits, p.Words) (granted : Bool) (write : Write) :
    FileStep texts host s.file (some (.register permits))
      (s.sync texts host p reportingEpoch permits granted write).file := by
  unfold sync
  split
  · split
    · split
      · exact .kept
      · exact .synced
    · split
      · exact .kept
      split
      · exact .kept
      next next saved =>
        have request :
            mutate texts host s.file.visible p.floor reportingEpoch (.register permits) = .ok next :=
          saved
        have wire : Authority.Request.Words (.register permits) := words
        obtain ⟨_, moved, ledger⟩ := mutate_moves inv.sound.1 wire request
        dsimp only
        split
        · exact .mutated _ next write ledger moved
        · exact .mutated _ next write ledger moved
  · exact .kept

theorem step_file (inv : Inv host s) {event : Event} (words : event.Words) :
    FileStep texts host s.file event.request (s.step texts host event).file := by
  cases event with
  | openJournal epoch accepted write =>
    simp only [step, openJournal]
    repeat' split
    all_goals exact .kept
  | advance granted write =>
    simp only [step]
    split
    · exact .kept
    · exact advance_file inv granted write
  | sync reportingEpoch permits granted write =>
    simp only [step]
    split
    · exact .kept
    · exact sync_file inv words granted write
  | save write =>
    simp only [step]
    split
    · exact .kept
    · unfold save
      split
      · exact .kept
      · exact .kept
  | compete minimum reportingEpoch request write =>
    simp only [step, compete]
    split
    · exact .kept
    next next saved =>
      obtain ⟨_, moved, ledger⟩ := mutate_moves inv.sound.1 words saved
      exact .mutated request next write ledger moved
  | crash => exact .kept
  | powerLoss journal authority => exact .recovered authority

/-- What every copy of the ledger satisfies is kept when it survives the request. -/
theorem FileStep.always {file next : Stored AuthorityFile} {request : Option Authority.Request}
    {P : Authority → Prop} (step : FileStep texts host file request next)
    (always : file.Always fun copy => P copy.ledger)
    (keeps : ∀ asked, request = some asked → P file.visible.ledger →
      P (file.visible.ledger.step texts.json texts.intents texts.sha256 asked)) :
    next.Always fun copy => P copy.ledger := by
  cases step with
  | kept => exact always
  | synced => exact always.sync
  | recovered survives => exact always.recover survives
  | advanced next write ledger => exact always_write always (fun held => by rw [ledger]; exact held) write
  | mutated asked next write ledger =>
    exact always_write always (fun held => by rw [ledger]; exact keeps asked rfl held) write

/-! ### Nothing registered is lost -/

/-- A bound below every copy of the authority stays below it. -/
theorem FileStep.through {file next : Stored AuthorityFile} {request : Option Authority.Request}
    {n : ℕ} (step : FileStep texts host file request next)
    (below : file.Always fun copy => n ≤ copy.ledger.through) :
    next.Always fun copy => n ≤ copy.ledger.through := by
  cases step with
  | kept => exact below
  | synced => exact below.sync
  | recovered survives => exact below.recover survives
  | advanced next write ledger =>
    exact always_write below (fun held => by rw [ledger]; exact held) write
  | mutated request next write ledger moved =>
    exact always_write below (fun held => held.trans moved.through) write

theorem runs_through (inv : Inv host s) {events : List Event}
    (words : ∀ event ∈ events, event.Words) {n : ℕ}
    (below : s.file.Always fun file => n ≤ file.ledger.through) :
    (runs texts host s events).file.Always fun file => n ≤ file.ledger.through := by
  induction events generalizing s with
  | nil => exact below
  | cons event rest ih =>
    obtain ⟨head, tail⟩ := List.forall_mem_cons.mp words
    exact ih (step_inv inv head) tail ((step_file inv head).through below)

/-! ### Writers of another epoch -/

/-- The epoch under which an event would write the authority. -/
def Event.writes (s : Launch) : Event → Option ℤ
  | .compete _ reportingEpoch _ _ => some reportingEpoch
  | .sync .. => s.process.map (·.epoch)
  | .advance .. => s.process.bind fun p =>
    match p.point with
    | .inspected current => some current.epoch
    | _ => none
  | .openJournal .. | .save _ | .crash | .powerLoss .. => none

theorem stale_step (inv : Inv host s) {event : Event} (words : event.Words) {epoch : ℤ}
    (writes : event.writes s = some epoch) (stale : epoch ≠ s.file.visible.epoch) :
    (s.step texts host event).file = s.file := by
  cases event with
  | openJournal | save | crash | powerLoss => cases writes
  | compete minimum reportingEpoch request write =>
    obtain rfl := Option.some.inj writes
    simp only [step, compete]
    split
    · rfl
    next next saved => exact absurd (mutate_moves inv.sound.1 words saved).1.symm stale
  | sync reportingEpoch permits granted write =>
    simp only [step]
    cases process : s.process with
    | none => rfl
    | some p =>
      rw [Event.writes, process] at writes
      obtain rfl := Option.some.inj writes
      dsimp only
      unfold sync
      split
      next ready =>
        -- a serving process is in the epoch of the file
        have reached := (inv.process p process).reached
        rw [Reached, ready.1] at reached
        exact absurd reached.1.1.symm stale
      · rfl
  | advance granted write =>
    simp only [step]
    cases process : s.process with
    | none => rfl
    | some p =>
      rw [Event.writes, process] at writes
      simp only [Option.bind_some] at writes
      split at writes
      next current point =>
        obtain rfl := Option.some.inj writes
        have reached := (inv.process p process).reached
        rw [Reached, point] at reached
        exact absurd reached.1.symm stale
      · cases writes

/-! ### A start in a later epoch -/

/-- How far a start has come, and a request after it. -/
def Point.rank : Point → ℕ
  | .opened => 0
  | .attached => 1
  | .inspected _ => 2
  | .advanced => 3
  | .bounded _ => 4
  | .serving => 5
  | .syncing _ => 6

def Starting (s : Launch) (epoch : ℤ) (rank : ℕ) : Prop :=
  ∃ p, s.process = some p ∧ p.epoch = epoch ∧ p.poisoned = false ∧ p.point.rank = rank

/-- Another holder of the file, between two steps of a start. -/
def Event.Competes : Event → Prop
  | .compete .. => True
  | _ => False

/-- A start in which no lock is contended and no save fails, with other holders in between. -/
def restart (epoch : ℤ) (others : ℕ → List Event) : List Event :=
  .openJournal epoch true .done :: (List.range 5).flatMap fun i => others i ++ [.advance true .done]

theorem compete_starting {event : Event} (competes : event.Competes) {epoch : ℤ} {rank : ℕ}
    (starting : Starting s epoch rank) : Starting (s.step texts host event) epoch rank := by
  cases event with
  | compete minimum reportingEpoch request write =>
    simp only [step, compete]
    split
    · exact starting
    · exact starting
  | openJournal | advance | sync | save | crash | powerLoss => cases competes

theorem runs_starting {events : List Event} (competes : ∀ event ∈ events, event.Competes)
    {epoch : ℤ} {rank : ℕ} (starting : Starting s epoch rank) :
    Starting (runs texts host s events) epoch rank := by
  induction events generalizing s with
  | nil => exact starting
  | cons event rest ih =>
    obtain ⟨head, tail⟩ := List.forall_mem_cons.mp competes
    exact ih tail (compete_starting head starting)

theorem openJournal_starting {epoch : ℤ} (idle : s.process = none)
    (later : s.journal.visible.epoch < epoch) :
    Starting (s.step texts host (.openJournal epoch true .done)) epoch 0 := by
  have free : ¬s.process.isSome = true := by simp [idle]
  rw [step, openJournal, if_neg free, if_pos ⟨later, rfl⟩]
  exact ⟨_, rfl, rfl, rfl, rfl⟩

/-- No step of a start can fail on what the files say. -/
theorem advance_starting (inv : Inv host s) {epoch : ℤ} {rank : ℕ} (before : rank < 5)
    (starting : Starting s epoch rank) :
    Starting (s.step texts host (.advance true .done)) epoch (rank + 1) := by
  obtain ⟨p, process, rfl, clean, rfl⟩ := starting
  have attends := inv.process p process
  have reached := attends.reached
  have loads : s.file.visible.load texts host p.floor = .ok s.file.visible.ledger :=
    load_covered inv.sound.1 attends.floor.1
  simp only [step, process]
  unfold advance
  unfold Reached at reached
  cases point : p.point with
  | opened =>
    have held := attends.anchored.1
    have ready : true = true ∧ 0 < p.journal.launchAuthority.epoch ∧
        p.journal.launchAuthority.epoch ≤ p.epoch :=
      ⟨rfl, held.positive, held.covers.1.trans (held.behind.trans attends.own.le)⟩
    unfold attach
    dsimp only
    rw [if_pos ready, loads]
    exact ⟨_, rfl, rfl, clean, rfl⟩
  | attached =>
    have read : retainedCheckpoint texts host s.file.visible p.floor =
        .ok { epoch := s.file.visible.epoch, registeredThrough := s.file.visible.ledger.through } := by
      rw [retainedCheckpoint, loads]
      rfl
    simp only [inspect, if_true, read]
    exact ⟨_, rfl, rfl, clean, rfl⟩
  | inspected current =>
    rw [point] at reached
    have same : s.file.visible.epoch = current.epoch := reached.1
    have behind : s.file.visible.epoch ≤ p.epoch :=
      attends.anchored.1.behind.trans attends.own.le
    by_cases later : current.epoch < p.epoch
    · have saved : advanceEpoch texts host s.file.visible p.floor current.epoch p.epoch =
          .ok { epoch := p.epoch, ledger := s.file.visible.ledger } := by
        have advances : s.file.visible.epoch = current.epoch ∧ s.file.visible.epoch < p.epoch :=
          ⟨same, same ▸ later⟩
        rw [advanceEpoch, loads]
        change (do ensure _ _; _) = _
        rw [seq_of_ok (ensure_ok.mpr advances), save_stored inv.sound.1.stored]
      simp only [advanceAuthority, if_pos later, if_true, saved]
      exact ⟨_, rfl, rfl, clean, rfl⟩
    · have own : current.epoch = p.epoch := le_antisymm (same ▸ behind) (not_lt.mp later)
      simp only [advanceAuthority, if_neg later, if_pos own]
      exact ⟨_, rfl, rfl, clean, rfl⟩
  | advanced =>
    rw [point] at reached
    have own : s.file.visible.epoch = p.epoch := reached.1
    have read : checkpoint texts host s.file.visible p.floor p.epoch =
        .ok { epoch := s.file.visible.epoch, registeredThrough := s.file.visible.ledger.through } := by
      rw [checkpoint, loads]
      change (do ensure _ _; _) = _
      rw [seq_of_ok (ensure_ok.mpr own)]
      rfl
    simp only [bound, if_true, read]
    exact ⟨_, rfl, rfl, clean, rfl⟩
  | bounded current =>
    simp only [serve, if_true, record]
    exact ⟨_, rfl, rfl, rfl, rfl⟩
  | serving => rw [point] at before; exact absurd before (by decide)
  | syncing => rw [point] at before; exact absurd before (by simp [Point.rank])

/-- Both files of a root are in one epoch, and the journal's checkpoint is the authority's. -/
structure Reconciled (s : Launch) (epoch : ℤ) : Prop where
  serves : ∃ p, s.process = some p ∧ p.epoch = epoch ∧ p.point = .serving ∧ p.poisoned = false
  journal : s.journal.Always fun journal =>
    journal.epoch = epoch ∧ journal.launchAuthority.epoch = epoch
  authority : s.file.Always fun file => file.epoch = epoch

theorem starting_reconciled (inv : Inv host s) {epoch : ℤ} (starting : Starting s epoch 5) :
    Reconciled s epoch := by
  obtain ⟨p, process, rfl, clean, rank⟩ := starting
  have point : p.point = .serving := by
    cases point : p.point <;> rw [point] at rank <;> first | rfl | cases rank
  have attends := inv.process p process
  have reached := attends.reached
  rw [Reached, point] at reached
  obtain ⟨same, own, journal⟩ := reached
  refine ⟨⟨p, process, rfl, point, clean⟩, ?_, same⟩
  rw [journal clean]
  exact .of ⟨attends.own, own⟩

/-- The steps of a start after the first, from the one that comes next. -/
theorem steps_starting {epoch : ℤ} {others : ℕ → List Event} (count : ℕ) {rank : ℕ}
    (ends : rank + count = 5) (inv : Inv host s) (starting : Starting s epoch rank)
    (competes : ∀ i, ∀ event ∈ others i, event.Competes ∧ event.Words) :
    Starting (runs texts host s ((List.range' rank count).flatMap fun i =>
      others i ++ [.advance true .done])) epoch 5 := by
  induction count generalizing s rank with
  | zero =>
    obtain rfl : rank = 5 := ends
    exact starting
  | succ count ih =>
    have words : ∀ event ∈ others rank, event.Words := fun event listed => (competes rank event listed).2
    have quiet : Inv host (runs texts host s (others rank)) := runs_inv inv words
    have waits : Starting (runs texts host s (others rank)) epoch rank :=
      runs_starting (fun event listed => (competes rank event listed).1) starting
    have moved : Starting ((runs texts host s (others rank)).step texts host (.advance true .done))
        epoch (rank + 1) := advance_starting quiet (by omega) waits
    have next : Inv host ((runs texts host s (others rank)).step texts host (.advance true .done)) :=
      step_inv quiet trivial
    rw [List.range'_succ, List.flatMap_cons, runs_append, runs_append]
    exact ih (by omega) next moved

theorem runs_restart (inv : Inv host s) {epoch : ℤ} {others : ℕ → List Event}
    (idle : s.process = none) (later : s.journal.visible.epoch < epoch)
    (competes : ∀ i, ∀ event ∈ others i, event.Competes ∧ event.Words) :
    Reconciled (runs texts host s (restart epoch others)) epoch := by
  have words : ∀ event ∈ restart epoch others, event.Words := by
    intro event listed
    rcases List.mem_cons.mp listed with rfl | listed
    · trivial
    · obtain ⟨i, _, listed⟩ := List.mem_flatMap.mp listed
      rcases List.mem_append.mp listed with other | own
      · exact (competes i event other).2
      · rw [List.mem_singleton.mp own]
        trivial
  refine starting_reconciled (runs_inv inv words) ?_
  have opened : Inv host (s.step texts host (.openJournal epoch true .done)) := step_inv inv trivial
  have started : Starting (s.step texts host (.openJournal epoch true .done)) epoch 0 :=
    openJournal_starting idle later
  rw [restart, List.range_eq_range']
  exact steps_starting 5 rfl opened started competes

end

/-! ### The root of a host -/

/-- What holds of every run from a provisioned root. -/
structure Reconciles (texts : Texts) (host : HostId) (start : Launch) : Prop where
  /-- With no events after, the journal's count beside the authority's mark at one time. -/
  covered : ∀ before after, (∀ event ∈ before ++ after, event.Words) →
    (runs texts host start before).journal.Always fun journal =>
      (runs texts host start (before ++ after)).file.Always fun file =>
        journal.launchAuthority.registeredThrough ≤ file.ledger.through
  stale : ∀ events event epoch, (∀ e ∈ events, e.Words) → event.Words →
    event.writes (runs texts host start events) = some epoch →
    epoch ≠ (runs texts host start events).file.visible.epoch →
    (runs texts host start (events ++ [event])).file = (runs texts host start events).file
  restarts : ∀ events epoch others, (∀ e ∈ events, e.Words) →
    (∀ i, ∀ event ∈ others i, event.Competes ∧ event.Words) →
    (runs texts host start events).process = none →
    (runs texts host start events).journal.visible.epoch < epoch →
    Reconciled (runs texts host start (events ++ restart epoch others)) epoch

section
variable {texts : Texts} {host : HostId} {start : Launch} {epoch : ℤ}

theorem provision_inv (made : provision texts host epoch = .ok start) : Inv host start := by
  obtain ⟨positive, made⟩ := seq_ok.mp made
  obtain ⟨ledger, new, made⟩ := bind_ok.mp made
  obtain ⟨file, saved, made⟩ := bind_ok.mp made
  obtain rfl := save_eq saved
  obtain rfl := pure_ok.mp made
  have new := mapError_ok.mp new
  have owner : ledger.host = host := Authority.new_host new
  have anchored : Anchored { epoch, launchAuthority := { epoch, registeredThrough := ledger.through } }
      { epoch, ledger } := ⟨ensure_ok.mp positive, ⟨le_rfl, le_rfl⟩, le_rfl⟩
  refine ⟨.of ⟨Authority.new_stored new, owner⟩, .of (.of anchored), ?_⟩
  rintro p ⟨⟩
  exact ⟨rfl, .of rfl, .of anchored, .of ⟨le_rfl, le_rfl⟩, trivial⟩

theorem root_reconciles (made : provision texts host epoch = .ok start) :
    Reconciles texts host start := by
  have inv := provision_inv made
  refine ⟨?_, ?_, ?_⟩
  · intro before after words
    have reached : Inv host (runs texts host start before) :=
      runs_inv inv fun event listed => words event (List.mem_append_left _ listed)
    have later : ∀ event ∈ after, event.Words :=
      fun event listed => words event (List.mem_append_right _ listed)
    rw [runs_append]
    exact reached.anchored.imp fun journal anchored =>
      runs_through reached later (anchored.imp fun file held => held.covers.2)
  · intro events event epoch words wire writes stale
    have reached : Inv host (runs texts host start events) := runs_inv inv words
    rw [runs_append]
    exact stale_step reached wire writes stale
  · intro events epoch others words competes idle later
    have reached : Inv host (runs texts host start events) := runs_inv inv words
    rw [runs_append]
    exact runs_restart reached idle later competes

end

/-! A root provisioned in its first epoch, with the text of the ledger as its codec. -/

noncomputable def sampleTexts : Texts where
  json := Authority.textJson
  intents := ⟨fun _ => none, fun _ => none⟩
  sha256 _ := Vector.replicate 32 0
  serde := Authority.textJson_serde

def sampleRoot : Launch where
  file := .of { epoch := 1, ledger := Authority.sampleAuthority }
  journal := .of { epoch := 1, launchAuthority := { epoch := 1, registeredThrough := 0 } }
  process := some
    { epoch := 1, floor := { epoch := 1, registeredThrough := 0 }, poisoned := false, point := .opened
      journal := { epoch := 1, launchAuthority := { epoch := 1, registeredThrough := 0 } } }

theorem provision_sample : provision sampleTexts Authority.sampleHost 1 = .ok sampleRoot := by
  have new : Authority.new Authority.sampleHost = .ok Authority.sampleAuthority := rfl
  rw [provision, seq_of_ok (ensure_ok.mpr (by decide)), new]
  change (do let file ← AuthorityFile.save sampleTexts 1 Authority.sampleAuthority; _) = _
  rw [save_stored (Authority.new_stored new)]
  rfl

theorem sampleRoot_reconciles : Reconciles sampleTexts Authority.sampleHost sampleRoot :=
  root_reconciles provision_sample

end HudsonSandbox.Launch
