import HudsonSandbox.Host.Exact
import HudsonSandbox.Host.CommandHistory
import HudsonSandbox.Host.UploadHistory
import Mathlib.Data.Finset.Card

/-!
# The budget of operation fences

An allocation has 64 fence slots, and the bounds on its commands and uploads leave sixteen of them
to its lifecycle. A command's slot is taken by one save and its record is written by the next; a
slot whose record was never written stays taken, for nothing retires it.
-/

namespace HudsonSandbox.Host
open Checked LiveOutput GuestModel Command History SupervisorFiles Supervisor Output Effect Run
  Files Maps

section
variable {commands : CommandEncoding} {files : FileEncoding} {fences : OperationId → Prop}
  {s next : Host} {record r : Record} {o : Ownership} {id : OperationId}

/-! ### Slots and the records that go with them -/

/-- The slot of the operation, if it has one, is a lifecycle operation's or goes with a record
that is retained. -/
def Accounted (s : Host) (id : OperationId) : Prop :=
  ∀ record ∈ s.written.head?, id ∈ record.revisions →
    id ∈ record.commands ∨ id ∈ record.files ∨ id ∈ s.lifecycle

theorem Accounted.same (accounted : Accounted s id) (written : next.written = s.written)
    (lifecycle : s.lifecycle ⊆ next.lifecycle) : Accounted next id := by
  intro record last slot
  rw [written] at last
  exact (accounted record last slot).imp_right (Or.imp_right fun marked => lifecycle marked)

theorem Accounted.silent (accounted : Accounted s id) (silent : Silent s next) : Accounted next id :=
  accounted.same (congrArg (List.filterMap Fact.record) silent.1) silent.2.ge

theorem accounted_store
    (slot : id ∈ r.revisions → id ∈ r.commands ∨ id ∈ r.files ∨ id ∈ s.lifecycle) :
    Accounted (s.store r) id := by
  intro record last held
  obtain rfl := Option.some.inj last
  exact slot held

theorem Accounted.durable : Durable fun s => Accounted s id where
  poison _ accounted := accounted.same rfl subset_rfl
  lost _ _ accounted := accounted.same rfl subset_rfl
  crash _ accounted := accounted.same rfl subset_rfl

/-- A dropped record takes its slot with it. -/
theorem remove_accounted {domain : Domain} {gone : List OperationId} {marked : Prop}
    (before : id ∈ record.revisions → id ∈ record.commands ∨ id ∈ record.files ∨ marked)
    (slot : id ∈ (record.remove domain gone).revisions) :
    id ∈ (record.remove domain gone).commands ∨ id ∈ (record.remove domain gone).files ∨ marked := by
  rw [Record.remove_revisions, mem_eraseAll] at slot
  obtain ⟨held, kept⟩ := slot
  cases domain with
  | commands => exact (before held).imp_left fun retained => mem_eraseAll.mpr ⟨retained, kept⟩
  | files =>
    exact (before held).imp_right (Or.imp_left fun retained => mem_eraseAll.mpr ⟨retained, kept⟩)

/-- No change but a command's fence takes a slot without a record. -/
theorem Change.accounted (change : Change commands files fences s record r) (outside : ¬fences id)
    (before : id ∈ record.revisions → id ∈ record.commands ∨ id ∈ record.files ∨ id ∈ s.lifecycle)
    (slot : id ∈ r.revisions) : id ∈ r.commands ∨ id ∈ r.files ∨ id ∈ s.lifecycle := by
  have inserted : ∀ {V : Type} {map : Map V} {key : OperationId} {value : V},
      id ∈ map → id ∈ map.insert key value := fun member => (AList.mem_insert _).mpr (.inr member)
  cases change with
  | fenceCommand allowed _ passed =>
    obtain ⟨_, _, _, rfl⟩ := fenced_ok passed
    obtain rfl | held := (AList.mem_insert _).mp slot
    · exact absurd allowed outside
    · exact before held
  | fenceFile retained passed =>
    obtain ⟨_, _, _, rfl⟩ := fenced_ok passed
    obtain rfl | held := (AList.mem_insert _).mp slot
    · exact .inr (.inl retained)
    · exact before held
  | fenceLifecycle marked _ passed =>
    obtain ⟨_, _, _, rfl⟩ := fenced_ok passed
    obtain rfl | held := (AList.mem_insert _).mp slot
    · exact .inr (.inr marked)
    · exact before held
  | tombstone => exact (before slot).imp_left inserted
  | intend => exact (before slot).imp_left inserted
  | confirm => exact (before slot).imp_left inserted
  | admitFile =>
    obtain rfl | held := (AList.mem_insert _).mp slot
    · exact .inr (.inl ((AList.mem_insert _).mpr (.inl rfl)))
    · exact (before held).imp_right (Or.imp_left inserted)
  | requestCommit => exact (before slot).imp_right (Or.imp_left inserted)
  | requestAbort => exact (before slot).imp_right (Or.imp_left inserted)
  | observeFile => exact (before slot).imp_right (Or.imp_left inserted)
  | lease passed =>
    obtain ⟨_, rfl⟩ := leased_ok passed
    exact before slot
  | outputPrepared _ _ passed =>
    obtain ⟨_, rfl⟩ := outputPrepared_ok passed
    exact before slot
  | outputPlanned passed =>
    obtain ⟨_, rfl⟩ := outputPlanned_ok passed
    exact before slot
  | freeze _ _ passed =>
    obtain ⟨_, rfl⟩ := frozen_ok passed.choose_spec
    exact before slot
  | floor =>
    simp only [Record.setSlot_revisions, Record.setSlot_commands, Record.setSlot_files] at slot ⊢
    exact before slot
  | complete passed =>
    obtain ⟨_, _, _, _, _, rfl⟩ := complete_ok passed
    simp only [Record.setSlot_revisions, Record.setSlot_commands, Record.setSlot_files] at slot ⊢
    exact remove_accounted before slot
  | reclaim _ _ passed =>
    obtain ⟨_, _, _, _, _, _, rfl⟩ := reclaim_ok passed
    simp only [Record.setReleasedSlot_revisions, Record.setReleasedSlot_commands,
      Record.setReleasedSlot_files] at slot ⊢
    exact remove_accounted before slot
  | _ => exact before slot

theorem Move.accounted (move : Move commands files fences s next)
    (journaled : Journaled commands files s) (outside : ¬fences id) (accounted : Accounted s id) :
    Accounted next id := by
  have follow : ∀ {record r}, Live s record → Change commands files fences s record r →
      Accounted (s.store r) id := fun live change =>
    accounted_store (change.accounted outside (accounted _ (live.written journaled)))
  have fresh : ∀ {r}, Initial r → Accounted (s.store r) id := by
    intro r initial
    refine accounted_store fun slot => ?_
    cases initial with
    | opened => cases slot
    | fenced _ _ passed =>
      obtain ⟨_, rfl⟩ := frozen_ok passed
      cases slot
  have reopened : ∀ {epoch accepted opened}, s.opened epoch accepted = .ok opened →
      Accounted (s.reopen epoch opened) id := by
    intro epoch accepted opened passed
    have last := (opened_ok passed).2
    rw [journaled.disk] at last
    cases head : s.written.head? with
    | none =>
      rw [head] at last
      obtain rfl := last
      exact accounted.same rfl subset_rfl
    | some record =>
      rw [head] at last
      obtain rfl := last
      intro r found slot
      obtain rfl := Option.some.inj found
      exact accounted record head slot
  cases move with
  | poison | lost | crash | wait => exact accounted.same rfl subset_rfl
  | mark => exact accounted.same rfl (Finset.subset_insert _ _)
  | reopen down passed => exact reopened passed
  | start down passed => exact (reopened passed).same rfl subset_rfl
  | insert up unpoisoned missing owned => exact fresh (.opened owned.generation owned.revision)
  | insertFenced up unpoisoned missing allocation host intent valid passed =>
    exact fresh (.fenced intent valid passed.choose_spec)
  | change live change => exact follow live change
  | send live intends => exact (follow live (.intend intends)).same rfl subset_rfl
  | askBegin | askInspect | askWrite => exact accounted.same rfl subset_rfl
  | askCommit live held commit abort staged valid =>
    exact (follow live (.requestCommit held commit abort staged valid)).same rfl subset_rfl
  | askAbort live held abort valid =>
    exact (follow live (.requestAbort held abort valid)).same rfl subset_rfl
  | answer live backed =>
    rename_i fact
    cases fact with
    | wrote => exact backed.elim
    | _ => exact accounted.same rfl subset_rfl

theorem Reached.accounted {origin : Host} (reached : Reached commands files fences origin s)
    (journaled : Journaled commands files origin) (outside : ¬fences id)
    (accounted : Accounted origin id) : Journaled commands files s ∧ Accounted s id := by
  induction reached with
  | refl => exact ⟨journaled, accounted⟩
  | tail _ move ih => exact ⟨move.journaled ih.1, move.accounted ih.1 outside ih.2⟩

/-! ### A command's fence and its record -/

/-- The claim lasts until a command that can be sent is recorded. -/
def Lasts (record : Record) (t : CommandTurns) : Waiting → Prop
  | .execute o command _ => (executeClient record command t).isSome = true →
      deadline o.claimExpiresUnixMs t.claim = .ok ⟨⟩
  | _ => True

/-- The state between a new fence and its record: nothing but the record is missing. -/
structure Unmatched (s : Host) (record : Record) (o : Ownership) (t : CommandTurns) : Prop where
  found : s.record = some record
  calm : s.poisoned = false
  absent : o.operationId ∉ record.commands
  room : size record.commands < MAX_COMMANDS
  durable : t.intent.Durable

theorem Unmatched.full {t : CommandTurns} (unmatched : Unmatched s record o t) :
    ensure (size record.commands < MAX_COMMANDS)
      (⟨.resourceExhausted, "command journal full"⟩ : Status) = .ok () :=
  ensure_ok.mpr unmatched.room

theorem FilesChange.count (change : FilesChange files record r) (bounded : size record.files ≤ MAX_FILES) :
    size r.files ≤ MAX_FILES := by
  cases change with
  | same saved => rw [saved]; exact bounded
  | admitted admits saved =>
    obtain ⟨t, room⟩ := admits.room
    obtain ⟨_, room⟩ := seq_ok.mp room
    obtain ⟨room, _⟩ := seq_ok.mp room
    rw [saved, size_insert_absent admits.absent]
    exact (ensure_ok.mp room).1
  | commit held _ _ _ _ saved => rw [saved, size_replace held.found]; exact bounded
  | abort held _ _ saved => rw [saved, size_replace held.found]; exact bounded
  | observed held _ saved => rw [saved, size_replace held.found]; exact bounded
  | dropped saved =>
    rw [saved]
    exact eraseAll_sublist.length_le.trans bounded

end

/-! ### An expired claim -/

namespace FenceSample

def commands : CommandEncoding := { length := fun _ => 0, digest := fun _ => 0 }
def files : FileEncoding := { length := fun _ => 0, sha256 := fun _ => 0 }

def owner (operation : ℕ) : Ownership :=
  { hostId := ⟨1⟩, projectId := ⟨2⟩, sandboxId := ⟨3⟩, allocationId := ⟨4⟩,
    operationId := ⟨BitVec.ofNat 128 operation⟩, generation := 1, supervisorEpoch := 1,
    claimRevision := 1, claimExpiresUnixMs := 100 }

def command (operation : ℕ) : Execute :=
  { operationId := ⟨BitVec.ofNat 128 operation⟩, argv := ["a"], env := [], cwd := "/",
    deadlineUnixMs := 1000, outputLimit := 1 }

def create : CreateRequest :=
  { ownership := some (owner 10), launchPermit := none, imageDigest := "image", resources := none,
    allocationExpiresUnixMs := 1000 }

def absent : GuardianTurns := { cleaned := .error uncertain }

def created : CreateTurns :=
  { fence := { now := 0 }, guardian := absent, observed := 0, claim := 0,
    ready := some { startCount := 1, expiresUnixMs := 1000 } }

/-- A live guest; `claim` is the clock after the fence has been saved. -/
def turns (claim : ℤ) : CommandTurns :=
  { fence := { now := 0 }, boot := some "boot", remaining := 0, claim, dispatch := 0, observed := 0 }

def execute (claim : ℤ) (operation : ℕ) : List Event :=
  [.arrive (.execute { ownership := some (owner operation), command := some (command operation) })
      { now := 0 },
    .serve (.execute (owner operation) (command operation) 0) (turns claim)]

def launched : List Event :=
  [.start 1 true .written, .arrive (.create create true) { now := 0 },
    .serve (.create (owner 10) create) created]

/-- Sixty-three commands whose claims run out between the two saves, then a stop. -/
def expired : List Event :=
  launched ++ (List.range 63).flatMap (fun n => execute 100 (11 + n)) ++
    [.arrive (.inspect (some (owner 9)) true) { now := 0 }]

def start : Host := Host.new ⟨4⟩ ⟨1⟩ false

def stopping : LifecycleTurns := { fence := { now := 0 }, guardian := absent, observed := 0 }

def answer (result : EStateM.Result Failure Host (Option Fact)) : Option Failure :=
  match result with
  | .ok _ _ => none
  | .error failure _ => some failure

end FenceSample
end HudsonSandbox.Host
