import HudsonSandbox.Inner.Removal

/-!
# Every run of a host keeps the invariant

Registering, starting and failing, then each event by the lemma of what it does.
-/

namespace HudsonSandbox.Inner
open Checked AllocationAuthority AllocationRetirement Stored Host Ledger Run

/-- The registered permits fit the columns of the store. -/
def Event.Words (issuer : Issuer) : Event → Prop
  | .register first count _ => ∀ k < count, (issuer.permit (first + k)).Words
  | _ => True

section
variable {config : Config} {texts : Texts} {issuer : Issuer} {s : Inner} {t : Thread} {turn : Turn}

/-! ### Registering -/

theorem checkpointed_inv (inv : Inv config issuer s) (up : s.up = true) (allocation : AllocationId) :
    Inv config issuer (s.checkpointed { allocation, gate := 0, launch := false, point := .editing }) := by
  unfold Inner.checkpointed
  split
  · exact inv
  · refine inv.resume up ⟨fun told => ?_, fun told => ?_, fun told => ?_, fun _ told => ?_, fun _ told => ?_,
      fun told => ?_⟩ fun _ _ => Apart.of_free rfl (by intro same; cases same)
    · cases told
    · cases told
    · cases told
    · cases told
    · cases told
    · cases told

theorem register_inv {first count : ℕ} (inv : Inv config issuer s) (up : s.up = true)
    (words : ∀ k < count, (issuer.permit (first + k)).Words) :
    Inv config issuer (s.register config texts issuer first count turn) := by
  unfold Inner.register
  dsimp only
  split
  · exact inv
  split
  · split
    · exact inv
    · split
      · exact inv
      · split
        · exact checkpointed_inv inv.syncAuthority up _
        · exact inv
  · split
    · refine rewrite_inv inv (fun file saved issued h => register_forward issued ?_ ?_ h) ?_
      · intro p member
        obtain ⟨k, low, rfl⟩ := List.mem_map.mp member
        exact words k (List.mem_range.mp low)
      · intro p member
        obtain ⟨k, _, rfl⟩ := List.mem_map.mp member
        rw [issuer.serial]
      · rintro file saved _ _ _ rfl inv
        exact checkpointed_inv inv up _
    · exact inv

/-- The bounds in the journal are not the threads' concern. -/
theorem Inv.bounded (inv : Inv config issuer s) (launchAuthority : Option Checkpoint) (write : Write) :
    Inv config issuer (s.saved { s.journal with launchAuthority } write) :=
  inv.saved inv.journal fun u member =>
    (inv.threads u member).congr rfl le_rfl (fun _ known => known.saved) id

theorem checkpointing_inv {checkpoint : Checkpoint} (inv : Inv config issuer s) :
    Inv config issuer (s.checkpointing checkpoint turn) := by
  unfold Inner.checkpointing
  split
  · exact inv
  · split
    · exact inv
    · exact commit_keeps (inv.bounded _ _) (inv.bounded _ _)

/-! ### Failing and starting -/

/-- A host that is down has no threads. -/
structure Down (config : Config) (issuer : Issuer) (s : Inner) : Prop where
  threads : s.threads = []
  journal : Sound config.capacity s.nextGate s.journal.records
  file : s.file.Always fun journal => Sound config.capacity s.nextGate journal.records
  authority : ∀ file ∈ s.authority, file.Always (Issued config.host issuer)

theorem Down.inv (down : Down config issuer s) : Inv config issuer s := by
  refine ⟨down.journal, down.file, fun _ => down.threads, down.authority, fun u member => ?_, ?_⟩
  · rw [down.threads] at member
    cases member
  · rw [down.threads]
    exact .nil

theorem crash_down (inv : Inv config issuer s) : Down config issuer s.crash :=
  ⟨rfl, inv.file.1, inv.file, inv.authority⟩

theorem powerLoss_down (inv : Inv config issuer s) (journal authority : Bool) (runtime : AllocationId → Bool) :
    Down config issuer (s.powerLoss journal authority runtime) := by
  have file := inv.file.recover journal
  refine ⟨rfl, file.1, file, fun found same => ?_⟩
  obtain ⟨old, has, rfl⟩ := Option.map_eq_some_iff.mp (Option.mem_def.mp same)
  exact (inv.authority old (Option.mem_def.mpr has)).recover authority

theorem bound_down {floor : Checkpoint} {file : AuthorityFile} {write : Write} (down : Down config issuer s) :
    Down config issuer (s.bound floor file write) := by
  have saved : ∀ launchAuthority, Down config issuer
      { s with journal := { s.journal with launchAuthority }, file := s.file.write { s.journal with launchAuthority } write } := by
    intro launchAuthority
    refine ⟨down.threads, down.journal, ?_, down.authority⟩
    have holds : Sound config.capacity s.nextGate ({ s.journal with launchAuthority } : Journal).records := down.journal
    exact down.file.write holds write
  unfold Inner.bound launchStep
  dsimp only
  split
  · have saved := saved (some { epoch := file.epoch, registeredThrough := file.ledger.through })
    exact ⟨saved.threads, saved.journal, saved.file, saved.authority⟩
  · exact saved _

/-- Opening the authority saves the ledger of the old epoch at most. -/
theorem openAuthority_ledger {epoch : ℤ} {retained : Checkpoint} {next : AuthorityFile} {file : Stored AuthorityFile}
    (has : s.authority = some file) (issued : Issued config.host issuer file.visible)
    (h : openAuthority config texts s epoch = .ok (some (retained, next))) :
    Issued config.host issuer next ∧ next.ledger = file.visible.ledger := by
  obtain ⟨_, h⟩ := seq_ok.mp h
  cases bounds : s.journal.launchAuthority with
  | none =>
    rw [bounds] at h
    cases pure_ok.mp h
  | some checkpoint =>
    rw [bounds, has] at h
    obtain ⟨_, h⟩ := seq_ok.mp h
    obtain ⟨found, present, h⟩ := bind_ok.mp h
    cases okOr_ok.mp present
    obtain ⟨ledger, loaded, h⟩ := bind_ok.mp h
    obtain ⟨rfl, _⟩ := Launch.load_eq issued.sound loaded
    obtain ⟨_, h⟩ := seq_ok.mp h
    by_cases older : file.visible.epoch < epoch
    · rw [if_pos older] at h
      obtain ⟨advanced, saved, h⟩ := bind_ok.mp h
      cases pure_ok.mp h
      obtain rfl := Launch.save_eq saved
      exact ⟨⟨⟨issued.sound.stored, issued.sound.host⟩, issued.permits⟩, rfl⟩
    · rw [if_neg older] at h
      obtain ⟨_, same, h⟩ := bind_ok.mp h
      cases pure_ok.mp same
      cases pure_ok.mp h
      exact ⟨issued, rfl⟩

theorem advanced_down {epoch : ℤ} {second third : Write} (down : Down config issuer s) :
    Down config issuer (s.advanced config texts epoch second third) := by
  unfold Inner.advanced
  split
  · exact down
  · exact ⟨down.threads, down.journal, down.file, down.authority⟩
  next retained next opens =>
    have authority : ∀ file ∈ s.authority.map fun old => old.sync.write next second,
        file.Always (Issued config.host issuer) := by
      intro file same
      obtain ⟨old, has, rfl⟩ := Option.map_eq_some_iff.mp (Option.mem_def.mp same)
      have issued := down.authority old (Option.mem_def.mpr has)
      exact issued.sync.write (openAuthority_ledger has issued.1 opens).1 second
    have moved : Down config issuer { s with authority := s.authority.map fun old => old.sync.write next second } :=
      ⟨down.threads, down.journal, down.file, authority⟩
    unfold launchStep
    dsimp only
    split
    · exact bound_down moved
    · exact moved

theorem opened_ok {epoch : ℤ} {accepted : Bool} {journal : Journal}
    (h : opened config texts s epoch accepted = .ok journal) : journal = s.file.visible.stopAll epoch := by
  obtain ⟨_, h⟩ := seq_ok.mp h
  obtain ⟨_, h⟩ := seq_ok.mp h
  exact (pure_ok.mp h).symm

theorem start_inv {epoch : ℤ} {accepted : Bool} {first second third : Write} (inv : Inv config issuer s) :
    Inv config issuer (s.start config texts epoch accepted first second third) := by
  unfold Inner.start
  split
  · exact inv
  next stopped =>
    split
    · exact inv
    next journal opens =>
      obtain rfl := opened_ok opens
      have sound := inv.file.1.stopAll
      have down : Down config issuer
          { s with journal := s.file.visible.stopAll epoch, file := s.file.write (s.file.visible.stopAll epoch) first } :=
        ⟨inv.down (Bool.not_eq_true _ ▸ stopped), sound, inv.file.write sound first, inv.authority⟩
      unfold launchStep
      dsimp only
      split
      · exact (advanced_down down).inv
      · exact down.inv

theorem guardian_inv {allocation : AllocationId} {runtime : Runtime} (inv : Inv config issuer s) :
    Inv config issuer (s.guardian allocation runtime) := by
  unfold Inner.guardian
  split
  · exact inv.setRuntime _ _
  · exact inv

/-! ### One step and every run -/

theorem taskCheck_ok {task : Task} {allocation : AllocationId}
    (h : taskCheck config texts s task turn = .ok allocation) : ∀ named ∈ task.names, named = allocation := by
  intro named told
  cases task with
  | create o request =>
    cases told
    obtain ⟨_, h⟩ := seq_ok.mp h
    obtain ⟨_, h⟩ := seq_ok.mp h
    obtain ⟨_, h⟩ := seq_ok.mp h
    exact pure_ok.mp h
  | inspect o stop =>
    cases told
    obtain ⟨_, h⟩ := seq_ok.mp h
    exact pure_ok.mp h
  | lease o lease expires => cases told
  | previous o => cases told
  | reconcile record => cases told
  | other o inserts =>
    cases inserts with
    | true =>
      cases told
      obtain ⟨_, h⟩ := seq_ok.mp h
      exact pure_ok.mp h
    | false => cases told

theorem request_inv {task : Task} (inv : Inv config issuer s) (up : s.up = true) :
    Inv config issuer (s.request config texts task turn) := by
  unfold Inner.request
  split
  · exact inv
  next allocation checked =>
    refine inv.resume up ⟨fun told => ?_, fun told => ?_, fun told => ?_, taskCheck_ok checked, fun _ told => ?_,
      fun told => ?_⟩ fun _ _ => Apart.of_free rfl (by intro same; cases same)
    · cases told
    · cases told
    · cases told
    · cases told
    · cases told

/-- The step of any thread that is off the list. -/
theorem proceed_inv (off : Off config issuer s t) (up : s.up = true) :
    Inv config issuer (s.proceed config texts t turn) := by
  unfold Inner.proceed
  split
  next point => exact arriving_inv off up point
  next point => exact waiting_inv off up point
  next point => exact held_inv off up point
  next point => exact admitting_inv off up point
  next point => exact preparing_inv off up point
  next point => exact dispatching_inv off up point
  next point => exact spawning_inv off up point
  next => exact off.inv
  next point => exact stopping_inv off up point
  next point => exact observing_inv off up point
  next point => exact releasing_inv off point
  next point => exact editing_inv off up point
  next point => exact fencing_inv off up point
  next point => exact draining_inv off up point
  next point => exact ticketing_inv off up point
  next point => exact acknowledging_inv off up point
  next point => exact regating_inv off up point
  next point => exact relocking_inv off up point
  next point => exact surveying_inv off up point
  next point => exact planning_inv off up point
  next point => exact unlinking_inv off up point
  next point => exact finishing_inv off point
  next point => exact completing_inv off up point
  next point => exact removing_inv off up point
  next point => exact syncing_inv off up point
  next => exact closing_inv off.inv
  next => exact checkpointing_inv off.inv
  next point => exact reading_inv off up point

theorem advance_inv {index : ℕ} (inv : Inv config issuer s) (up : s.up = true) :
    Inv config issuer (s.advance config texts index turn) := by
  unfold Inner.advance
  split
  · exact inv
  next t at_ =>
    dsimp only
    split
    · exact inv
    · exact proceed_inv (inv.off at_) up

theorem step_inv (s : Inner) (event : Event) (inv : Inv config issuer s) (words : event.Words issuer) :
    Inv config issuer (s.step config texts issuer event) := by
  cases event with
  | request task turn =>
    show Inv config issuer (if s.up = true then s.request config texts task turn else s)
    split
    next up => exact request_inv inv up
    · exact inv
  | fence request retire turn =>
    show Inv config issuer (if s.up = true ∧ JournalFree s.threads then s.freeze config texts request retire turn else s)
    split
    next free => exact freeze_inv inv free.1
    · exact inv
  | forget request turn =>
    show Inv config issuer (if s.up = true ∧ JournalFree s.threads then s.forget config texts request turn else s)
    split
    next free => exact forget_inv inv free.1
    · exact inv
  | register first count turn =>
    show Inv config issuer (if s.up = true ∧ JournalFree s.threads then s.register config texts issuer first count turn else s)
    split
    next free => exact register_inv inv free.1 words
    · exact inv
  | pin allocation =>
    show Inv config issuer (if s.up = true ∧ JournalFree s.threads then s.pin allocation else s)
    split
    next free => exact pin_inv inv free.1
    · exact inv
  | advance index turn =>
    show Inv config issuer (if s.up = true then s.advance config texts index turn else s)
    split
    next up => exact advance_inv inv up
    · exact inv
  | guardian allocation runtime => exact guardian_inv inv
  | crash => exact (crash_down inv).inv
  | powerLoss journal authority runtime => exact (powerLoss_down inv journal authority runtime).inv
  | start epoch accepted first second third => exact start_inv inv

theorem provision_inv {epoch : ℤ} (made : provision config texts epoch = .ok s) : Inv config issuer s := by
  have empty : ∀ authority, (∀ file ∈ authority, Issued config.host issuer file) →
      Inv config issuer (provisioned epoch authority) := by
    intro authority issued
    refine Down.inv ⟨rfl, .empty, .of .empty, fun file same => ?_⟩
    obtain ⟨fresh, has, rfl⟩ := Option.map_eq_some_iff.mp (Option.mem_def.mp same)
    exact .of (issued fresh (Option.mem_def.mpr has))
  obtain ⟨_, made⟩ := seq_ok.mp made
  split at made
  · obtain ⟨file, fresh, made⟩ := bind_ok.mp made
    cases pure_ok.mp made
    refine empty _ fun found same => ?_
    cases same
    obtain ⟨ledger, new, saved⟩ := bind_ok.mp fresh
    obtain rfl := Launch.save_eq saved
    have new := mapError_ok.mp new
    refine ⟨⟨Authority.new_stored new, Authority.new_host new⟩, fun e member => ?_⟩
    obtain ⟨_, new⟩ := seq_ok.mp new
    cases pure_ok.mp new
    cases member
  · cases pure_ok.mp made
    refine empty none fun file absent => ?_
    cases absent

/-- A host, from its provisioning on, however its requests, its failures and its starts fall. -/
def Reached (config : Config) (texts : Texts) (issuer : Issuer) (s : Inner) : Prop :=
  ∃ epoch start events, provision config texts epoch = .ok start ∧ (∀ event ∈ events, event.Words issuer) ∧
    s = run (fun s event => s.step config texts issuer event) start events

theorem along_words {events : List Event} (words : ∀ event ∈ events, event.Words issuer) {s : Inner} :
    Along (fun s event => s.step config texts issuer event) (fun _ event => event.Words issuer) s events := by
  induction events generalizing s with
  | nil => trivial
  | cons event rest ih =>
    exact ⟨words event List.mem_cons_self, ih fun later member => words later (List.mem_cons_of_mem _ member)⟩

theorem Reached.inv (reached : Reached config texts issuer s) : Inv config issuer s := by
  obtain ⟨epoch, start, events, made, words, rfl⟩ := reached
  exact run_guarded step_inv (provision_inv made) (along_words words)

end
end HudsonSandbox.Inner
