import HudsonSandbox.Host.Runs
import Mathlib.Data.List.Chain

/-!
# What the host has written

The records a host wrote, one after another, are its history: each follows from the one before by
one change, or by a restart that stops it. What is live is the last of them.
-/

namespace HudsonSandbox.Host
open Checked LiveOutput GuestModel Command History SupervisorFiles Supervisor Output Effect Run
  Files

section
variable {commands : CommandEncoding} {files : FileEncoding} {fences : OperationId → Prop}
  {origin s : Host}

def Fact.record : Fact → Option Record
  | .wrote record => some record
  | _ => none

/-- The records that were saved, newest first. -/
def written (s : Host) : List Record := s.facts.filterMap Fact.record

theorem mem_written {record : Record} : record ∈ s.written ↔ .wrote record ∈ s.facts := by
  simp only [written, List.mem_filterMap]
  constructor
  · rintro ⟨fact, member, same⟩
    cases fact with
    | wrote r => cases same; exact member
    | _ => cases same
  · exact fun member => ⟨_, member, rfl⟩

/-- How an allocation gets its first record. -/
inductive Initial : Record → Prop where
  | opened {o : Ownership} (generation : 0 < o.generation) (revision : 0 < o.claimRevision) :
      Initial (Record.new o)
  | fenced {request epoch now later next} (intent : request.intent.simulated = false)
      (valid : request.validate request.intent epoch 1 now = .ok ())
      (passed : frozen request epoch later (Record.empty request) = .ok next) : Initial next

/-- How a record comes after another. -/
inductive Succeeds (commands : CommandEncoding) (files : FileEncoding) : Record → Record → Prop where
  | changed {fences s record next} (change : Change commands files fences s record next) :
      Succeeds commands files record next
  | reopened {record} : Succeeds commands files record { record with stopped := true }

def Journal.record? (disk : Option Journal) : Option Record := disk.bind (·.record)

/-- The journal holds the last record written, and a host that can save serves it. -/
structure Journaled (commands : CommandEncoding) (files : FileEncoding) (s : Host) : Prop where
  disk : Journal.record? s.disk = s.written.head?
  mirror : s.up = true → s.poisoned = false → s.record = s.written.head?
  chain : s.written.IsChain fun later earlier => Succeeds commands files earlier later
  first : ∀ record ∈ s.written.getLast?, Initial record

/-- A host that wrote nothing since is journaled as before, if it can save nothing more. -/
theorem Journaled.idle {next : Host} (journaled : Journaled commands files s)
    (idle : next.up = true → next.poisoned = false → False)
    (disk : Journal.record? next.disk = Journal.record? s.disk) (facts : next.facts = s.facts) :
    Journaled commands files next := by
  have same : next.written = s.written := congrArg (List.filterMap Fact.record) facts
  refine ⟨?_, fun up calm => (idle up calm).elim, ?_, ?_⟩
  · rw [disk, same]; exact journaled.disk
  · rw [same]; exact journaled.chain
  · rw [same]; exact journaled.first

/-- Nor does it matter what else changes in a host whose record stays. -/
theorem Journaled.same {next : Host} (journaled : Journaled commands files s)
    (up : next.up = s.up) (poisoned : next.poisoned = s.poisoned) (record : next.record = s.record)
    (disk : next.disk = s.disk) (written : next.written = s.written) :
    Journaled commands files next := by
  refine ⟨?_, fun up' calm => ?_, ?_, ?_⟩
  · rw [disk, written]; exact journaled.disk
  · rw [record, written]; exact journaled.mirror (up ▸ up') (poisoned ▸ calm)
  · rw [written]; exact journaled.chain
  · rw [written]; exact journaled.first

/-- A save that follows the last record is the last one from then on. -/
theorem Journaled.store {next : Record} (journaled : Journaled commands files s)
    (follows : ∀ record ∈ s.written.head?, Succeeds commands files record next)
    (first : s.written.head? = none → Initial next) : Journaled commands files (s.store next) := by
  have written : (s.store next).written = next :: s.written := rfl
  refine ⟨rfl, fun _ _ => rfl, ?_, ?_⟩
  · rw [written]
    exact journaled.chain.cons follows
  · rw [written]
    cases empty : s.written with
    | nil =>
      intro record same
      obtain rfl := Option.some.inj same
      exact first (by rw [empty]; rfl)
    | cons head rest =>
      rw [List.getLast?_cons_cons, ← empty]
      exact journaled.first

theorem Live.written (journaled : Journaled commands files s) {record : Record}
    (live : Live s record) : s.written.head? = some record :=
  (journaled.mirror live.up live.unpoisoned).symm.trans live.found

theorem Journaled.follow {record next : Record} (journaled : Journaled commands files s)
    (live : Live s record) (succeeds : Succeeds commands files record next) :
    Journaled commands files (s.store next) := by
  have last := live.written journaled
  refine journaled.store (fun r found => ?_) fun empty => ?_
  · obtain rfl := Option.some.inj (last.symm.trans found)
    exact succeeds
  · cases last.symm.trans empty

theorem Journaled.tell (journaled : Journaled commands files s) {fact : Fact}
    (silent : fact.record = none) : Journaled commands files (s.tell fact) :=
  journaled.same rfl rfl rfl rfl (List.filterMap_cons_none silent)

theorem opened_ok {epoch : ℤ} {accepted : Bool} {record : Option Record}
    (passed : s.opened epoch accepted = .ok record) :
    0 < epoch ∧ record = (Journal.record? s.disk).map fun r => { r with stopped := true } := by
  obtain ⟨valid, passed⟩ := seq_ok.mp passed
  refine ⟨(ensure_ok.mp valid).1, ?_⟩
  cases disk : s.disk with
  | none =>
    rw [disk] at passed
    exact (pure_ok.mp passed).symm
  | some journal =>
    rw [disk] at passed
    obtain ⟨_, passed⟩ := seq_ok.mp passed
    obtain ⟨_, passed⟩ := seq_ok.mp passed
    exact (pure_ok.mp passed).symm

theorem Journaled.reopen {epoch : ℤ} {accepted : Bool} {record : Option Record}
    (journaled : Journaled commands files s) (down : s.up = false)
    (passed : s.opened epoch accepted = .ok record) :
    Journaled commands files (s.reopen epoch record) ∧
      record = (s.reopen epoch record).written.head? := by
  have last := (opened_ok passed).2
  have idle : (s.reopen epoch record).up = true → (s.reopen epoch record).poisoned = false → False :=
    fun up _ => absurd (down.symm.trans up) (by decide)
  rw [journaled.disk] at last
  cases head : s.written.head? with
  | none =>
    rw [head] at last
    obtain rfl := last
    have before := journaled.disk.trans head
    exact ⟨journaled.idle idle before.symm rfl, head.symm⟩
  | some head' =>
    rw [head] at last
    obtain rfl := last
    have stored : Journaled commands files (s.store { head' with stopped := true }) := by
      refine journaled.store (fun r found => ?_) fun none => ?_
      · obtain rfl := Option.some.inj (head.symm.trans found)
        exact .reopened
      · cases head.symm.trans none
    exact ⟨⟨rfl, fun up calm => (idle up calm).elim, stored.chain, stored.first⟩, rfl⟩

theorem Move.journaled {next : Host} (move : Move commands files fences s next)
    (journaled : Journaled commands files s) : Journaled commands files next := by
  have follow : ∀ {record r}, Live s record → Change commands files fences s record r →
      Journaled commands files (s.store r) :=
    fun live change => journaled.follow live (.changed change)
  cases move with
  | poison => exact journaled.idle (fun _ calm => by cases calm) rfl rfl
  | lost => exact journaled.idle (fun _ calm => by cases calm) rfl rfl
  | crash => exact journaled.idle (fun up => by cases up) rfl rfl
  | reopen down passed => exact (journaled.reopen down passed).1
  | start down passed =>
    obtain ⟨reopened, last⟩ := journaled.reopen down passed
    exact ⟨reopened.disk, fun _ _ => last, reopened.chain, reopened.first⟩
  | wait => exact journaled.same rfl rfl rfl rfl rfl
  | mark => exact journaled.same rfl rfl rfl rfl rfl
  | insert up unpoisoned missing owned =>
    have empty := (journaled.mirror up unpoisoned).symm.trans missing
    refine journaled.store (fun r found => ?_) fun _ => .opened owned.generation owned.revision
    cases empty.symm.trans found
  | insertFenced up unpoisoned missing allocation host intent valid passed =>
    have empty := (journaled.mirror up unpoisoned).symm.trans missing
    refine journaled.store (fun r found => ?_) fun _ => .fenced intent valid passed.choose_spec
    cases empty.symm.trans found
  | change live change => exact follow live change
  | send live intends => exact (follow live (.intend intends)).tell rfl
  | askBegin => exact journaled.tell rfl
  | askInspect => exact journaled.tell rfl
  | askWrite => exact journaled.tell rfl
  | askCommit live held commit abort staged valid =>
    exact (follow live (.requestCommit held commit abort staged valid)).tell rfl
  | askAbort live held abort valid =>
    exact (follow live (.requestAbort held abort valid)).tell rfl
  | answer live backed =>
    refine journaled.tell ?_
    rename_i fact
    cases fact with
    | wrote => exact backed.elim
    | _ => rfl

theorem Reached.journaled {allocation : AllocationId} {host : HostId} {permits : Bool}
    (reached : Reached commands files fences (Host.new allocation host permits) s) :
    Journaled commands files s := by
  induction reached with
  | refl => exact ⟨rfl, fun up => (by cases up), List.IsChain.nil, fun _ none => by cases none⟩
  | tail _ move ih => exact move.journaled ih

/-! ### What a move adds to the history -/

/-- What is told without a save, under the last record that was written. -/
inductive Says (record : Record) : Fact → Prop where
  | answer {fact} (backed : Backed record fact) : Says record fact
  | begin {id file} (held : FileHeld id record file) : Says record (.asked id .begin)
  | inspect {id} : Says record (.asked id .inspect)
  | write {id file} (offset : ℕ) (data : List UInt8) (held : FileHeld id record file)
      (commit : file.commitRequested = false) (abort : file.abortRequested = false) :
      Says record (.asked id (.write offset data))

/-- What is sent right after the save of its intent. -/
inductive Acts (commands : CommandEncoding) (files : FileEncoding) (record : Record) :
    Record → Fact → Prop where
  | send {o command retained} (intends : Intends commands o record command retained) :
      Acts commands files record
        { record with commands := record.commands.insert o.operationId retained }
        (.executed o.operationId)
  | commit {id file} (held : FileHeld id record file) (commit : file.commitRequested = false)
      (abort : file.abortRequested = false) (staged : file.state = 1)
      (valid : { file with commitRequested := true }.validate files = .ok ()) :
      Acts commands files record
        { record with files := record.files.insert id { file with commitRequested := true } }
        (.asked id .commit)
  | abort {id file} (held : FileHeld id record file) (abort : file.abortRequested = false)
      (valid : { file with abortRequested := true }.validate files = .ok ()) :
      Acts commands files record
        { record with files := record.files.insert id { file with abortRequested := true } }
        (.asked id .abort)

theorem Acts.change {record next : Record} {fact : Fact} (fences : OperationId → Prop) (s : Host)
    (acts : Acts commands files record next fact) : Change commands files fences s record next := by
  cases acts with
  | send intends => exact .intend intends
  | commit held commit abort staged valid => exact .requestCommit held commit abort staged valid
  | abort held abort valid => exact .requestAbort held abort valid

/-- How the history grows by one move. -/
inductive Grows (commands : CommandEncoding) (files : FileEncoding) (s next : Host) : Prop where
  | quiet (facts : next.facts = s.facts)
  | first {r} (facts : next.facts = .wrote r :: s.facts) (empty : s.written.head? = none)
      (initial : Initial r)
  | saved {record r} (facts : next.facts = .wrote r :: s.facts)
      (last : s.written.head? = some record) (succeeds : Succeeds commands files record r)
  | acted {record r fact} (facts : next.facts = fact :: .wrote r :: s.facts)
      (last : s.written.head? = some record) (acts : Acts commands files record r fact)
  | told {record fact} (facts : next.facts = fact :: s.facts)
      (last : s.written.head? = some record) (known : Says record fact)

theorem Journaled.reopens {next : Host} {epoch : ℤ} {accepted : Bool} {opened : Option Record}
    (journaled : Journaled commands files s) (passed : s.opened epoch accepted = .ok opened)
    (facts : next.facts = (s.reopen epoch opened).facts) : Grows commands files s next := by
  have last := (opened_ok passed).2
  rw [journaled.disk] at last
  cases head : s.written.head? with
  | none =>
    rw [head] at last
    obtain rfl := last
    exact .quiet facts
  | some record =>
    rw [head] at last
    obtain rfl := last
    exact .saved facts head .reopened

theorem Move.grows {next : Host} (move : Move commands files fences s next)
    (journaled : Journaled commands files s) : Grows commands files s next := by
  cases move with
  | poison | lost | crash | wait | mark => exact .quiet rfl
  | reopen down passed => exact journaled.reopens passed rfl
  | start down passed => exact journaled.reopens passed rfl
  | insert up unpoisoned missing owned =>
    have empty := (journaled.mirror up unpoisoned).symm.trans missing
    exact .first rfl empty (.opened owned.generation owned.revision)
  | insertFenced up unpoisoned missing allocation host intent valid passed =>
    have empty := (journaled.mirror up unpoisoned).symm.trans missing
    exact .first rfl empty (.fenced intent valid passed.choose_spec)
  | change live change => exact .saved rfl (live.written journaled) (.changed change)
  | send live intends => exact .acted rfl (live.written journaled) (.send intends)
  | askBegin live held => exact .told rfl (live.written journaled) (.begin held)
  | askInspect live => exact .told rfl (live.written journaled) .inspect
  | askWrite offset data live held commit abort =>
    exact .told rfl (live.written journaled) (.write offset data held commit abort)
  | askCommit live held commit abort staged valid =>
    exact .acted rfl (live.written journaled) (.commit held commit abort staged valid)
  | askAbort live held abort valid =>
    exact .acted rfl (live.written journaled) (.abort held abort valid)
  | answer live backed => exact .told rfl (live.written journaled) (.answer backed)

theorem written_of_wrote {next : Host} {r : Record} (facts : next.facts = .wrote r :: s.facts) :
    next.written = r :: s.written := by
  unfold written
  rw [facts]
  rfl

theorem written_of_silent {next : Host} {fact : Fact} (facts : next.facts = fact :: s.facts)
    (silent : fact.record = none) : next.written = s.written := by
  unfold written
  rw [facts, List.filterMap_cons_none silent]

theorem Says.silent {record : Record} {fact : Fact} (known : Says record fact) :
    fact.record = none := by
  cases known with
  | @answer fact backed =>
    cases fact with
    | wrote => exact backed.elim
    | _ => rfl
  | _ => rfl

theorem Acts.silent {record next : Record} {fact : Fact} (acts : Acts commands files record next fact) :
    fact.record = none := by
  cases acts <;> rfl

/-- Whatever a fact of the history has settled is still settled in the last record. -/
def Remembers (settles : OperationId → Fact → Prop) (Held : Record → OperationId → Prop) (s : Host) :
    Prop :=
  ∀ fact ∈ s.facts, ∀ id, settles id fact → ∃ record ∈ s.written.head?, Held record id

theorem Grows.remembers {next : Host} {settles : OperationId → Fact → Prop}
    {Held : Record → OperationId → Prop} (grows : Grows commands files s next)
    (remembers : Remembers settles Held s)
    (step : ∀ record r id, s.written.head? = some record → Succeeds commands files record r →
      Held record id → Held r id)
    (wrote : ∀ r id, settles id (.wrote r) → Held r id)
    (acted : ∀ record r fact id, Acts commands files record r fact → settles id fact → Held r id)
    (told : ∀ record fact id, Says record fact → settles id fact → Held record id) :
    Remembers settles Held next := by
  have saved : ∀ record r, s.written.head? = some record → Succeeds commands files record r →
      ∀ fact ∈ .wrote r :: s.facts, ∀ id, settles id fact → Held r id := by
    intro record r last succeeds fact member id settled
    obtain rfl | member := List.mem_cons.mp member
    · exact wrote r id settled
    · obtain ⟨held, found, holds⟩ := remembers fact member id settled
      obtain rfl := Option.some.inj (last.symm.trans found)
      exact step record r id last succeeds holds
  intro fact member id settled
  cases grows with
  | quiet facts =>
    have same : next.written = s.written := congrArg (List.filterMap Fact.record) facts
    rw [same]
    exact remembers fact (facts ▸ member) id settled
  | @first r facts empty initial =>
    rw [written_of_wrote facts]
    obtain rfl | member := List.mem_cons.mp (facts ▸ member)
    · exact ⟨r, rfl, wrote r id settled⟩
    · obtain ⟨record, found, _⟩ := remembers fact member id settled
      cases empty.symm.trans found
  | @saved record r facts last succeeds =>
    rw [written_of_wrote facts]
    exact ⟨r, rfl, saved record r last succeeds fact (facts ▸ member) id settled⟩
  | @acted record r told facts last acts =>
    have written : next.written = r :: s.written := by
      unfold Host.written
      rw [facts, List.filterMap_cons_none acts.silent]
      rfl
    rw [written]
    obtain rfl | member := List.mem_cons.mp (facts ▸ member)
    · exact ⟨r, rfl, acted record r fact id acts settled⟩
    · exact ⟨r, rfl, saved record r last (.changed (acts.change (fun _ => True) s)) fact member id settled⟩
  | @told record new facts last known =>
    rw [written_of_silent facts known.silent]
    obtain rfl | member := List.mem_cons.mp (facts ▸ member)
    · exact ⟨record, last, told record fact id known settled⟩
    · exact remembers fact member id settled

theorem run_reached (commands : CommandEncoding) (files : FileEncoding) (allocation : AllocationId)
    (host : HostId) (permits : Bool) (events : List Event) :
    Reached commands files (fun _ => True) (Host.new allocation host permits)
      (run (step commands files) (Host.new allocation host permits) events) :=
  run_moves events fun _ waits => absurd waits List.not_mem_nil

/-! ### What holds of every record, and of every two -/

variable {P : Record → Prop} {R : Record → Record → Prop}

/-- What a first record has and every change keeps holds of every record that was written. -/
theorem Journaled.all (journaled : Journaled commands files s) (first : ∀ r, Initial r → P r)
    (step : ∀ r next, P r → Succeeds commands files r next → P next) : ∀ r ∈ s.written, P r := by
  refine journaled.chain.backwards_induction P _ (fun later earlier succeeds held => ?_) fun some => ?_
  · exact step earlier later held succeeds
  · exact first _ (journaled.first _ (List.getLast?_eq_some_getLast some))

/-- What every change keeps between its two records holds between any earlier and later one. -/
theorem Journaled.pairwise (journaled : Journaled commands files s)
    (first : ∀ r, Initial r → P r)
    (step : ∀ r next, P r → Succeeds commands files r next → P next ∧ R r next)
    (trans : ∀ a b c, R a b → R b c → R a c) :
    s.written.Pairwise fun later earlier => R earlier later := by
  have invariant := journaled.all first fun r next held succeeds => (step r next held succeeds).1
  have : Trans (fun later earlier => R earlier later) (fun later earlier => R earlier later)
      fun later earlier => R earlier later := ⟨fun ab bc => trans _ _ _ bc ab⟩
  refine List.isChain_iff_pairwise.mp (journaled.chain.imp_of_mem_imp ?_)
  exact fun later earlier _ member succeeds => (step earlier later (invariant _ member) succeeds).2

end
end HudsonSandbox.Host
