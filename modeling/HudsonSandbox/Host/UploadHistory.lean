import HudsonSandbox.Host.Floors

/-!
# Retained uploads over a run

A commit or an abort is on disk before the guest is asked for it, and from then on nothing else is
asked of the upload but an inspection. Whatever the guest reports, and however late, a record only
takes it while it has no end, and only as far as the host has asked for it.
-/

namespace HudsonSandbox.Host
open Checked LiveOutput GuestModel Command History SupervisorFiles Supervisor Output Effect Run
  Files

section
variable {commands : CommandEncoding} {files : FileEncoding} {fences : OperationId → Prop}
  {s : Host} {record next : Record}
  {id : OperationId} {file : FileRecord}

/-! ### What a retained upload has -/

/-- Every retained upload passes the check of its own record. -/
def FilesValid (files : FileEncoding) (record : Record) : Prop :=
  ∀ id file, record.files.lookup id = some file → file.validate files = .ok ()

theorem FilesValid.inserted (valid : FilesValid files record)
    (saved : next.files = record.files.insert id file) (passed : file.validate files = .ok ()) :
    FilesValid files next := by
  intro id' file' found
  rw [saved] at found
  by_cases same : id' = id
  · subst same
    rw [AList.lookup_insert] at found
    obtain rfl := Option.some.inj found
    exact passed
  · rw [AList.lookup_insert_ne same] at found
    exact valid id' file' found

theorem observe_ok {upload : Upload} {receipt : Transfer.Receipt} {moved : FileRecord}
    (observed : file.observe files upload receipt = .ok moved) :
    moved = { file with state := FileRecord.stateNumber receipt.state } ∧
      moved.validate files = .ok () := by
  obtain ⟨_, observed⟩ := seq_ok.mp observed
  obtain ⟨_, _, observed⟩ := bind_ok.mp observed
  obtain ⟨_, observed⟩ := seq_ok.mp observed
  obtain ⟨_, observed⟩ := seq_ok.mp observed
  obtain ⟨_, observed⟩ := seq_ok.mp observed
  obtain ⟨_, observed⟩ := seq_ok.mp observed
  obtain ⟨_, observed⟩ := seq_ok.mp observed
  obtain ⟨valid, observed⟩ := seq_ok.mp observed
  obtain rfl := pure_ok.mp observed
  exact ⟨rfl, valid⟩

theorem FilesChange.valid (change : FilesChange files record next) (valid : FilesValid files record) :
    FilesValid files next := by
  cases change with
  | same saved => exact fun id file found => valid id file (saved ▸ found)
  | admitted admits saved => exact valid.inserted saved admits.valid
  | commit _ _ _ _ passed saved => exact valid.inserted saved passed
  | abort _ _ passed saved => exact valid.inserted saved passed
  | observed _ observed saved => exact valid.inserted saved (observe_ok observed).2
  | @dropped gone saved =>
    intro id file found
    rw [saved, eraseAll_lookup] at found
    split at found
    · cases found
    · exact valid id file found

theorem Initial.noFiles (initial : Initial record) : record.files = ∅ := by
  cases initial with
  | opened => rfl
  | fenced _ _ passed =>
    obtain ⟨_, rfl⟩ := frozen_ok passed
    rfl

/-- What the guest reports of an end is recorded only if the host asked for it. -/
theorem validate_intended (valid : file.validate files = .ok ()) :
    (file.state = 3 → file.commitRequested = true) ∧
      (file.state = 5 → file.abortRequested = true) := by
  obtain ⟨_, valid⟩ := seq_ok.mp valid
  obtain ⟨intent, _⟩ := seq_ok.mp valid
  unfold FileRecord.validateIntent at intent
  split at intent
  next absent =>
    obtain ⟨_, _, idle, _⟩ := ensure_ok.mp intent
    rw [idle]
    exact ⟨fun same => (by cases same), fun same => by cases same⟩
  next =>
    obtain ⟨_, _, intent⟩ := bind_ok.mp intent
    obtain ⟨_, intent⟩ := seq_ok.mp intent
    obtain ⟨commit, abort⟩ := seq_ok.mp intent
    refine ⟨fun committed => ?_, fun aborted => ?_⟩
    · exact (ensure_ok.mp commit).resolve_left fun other => other (.inr committed)
    · exact (ensure_ok.mp abort).resolve_left fun other => other aborted

/-! ### What later records keep -/

/-- What has an end stays as it is, and is dropped only below a floor. -/
def Ended (record next : Record) : Prop :=
  ∀ id file, record.files.lookup id = some file → file.finished →
    next.files.lookup id = some file ∨ id ∉ next.files ∧ next.Covered .files id

/-- The host has asked for an end of the upload, whatever became of its record since. -/
def Sealed (record : Record) (id : OperationId) : Prop :=
  (∃ file ∈ record.files.lookup id, file.commitRequested = true ∨ file.abortRequested = true) ∨
    id ∉ record.files ∧ record.Covered .files id

theorem found_mem (found : record.files.lookup id = some file) : id ∈ record.files :=
  AList.lookup_isSome.mp (by rw [found]; rfl)

/-- A change leaves an upload alone, moves one that has no end, or drops it below a floor. -/
theorem FilesChange.kept (change : FilesChange files record next)
    (found : record.files.lookup id = some file) :
    next.files.lookup id = some file ∨ id ∉ next.files ∧ next.Covered .files id ∨
      ¬file.finished ∧ ∃ moved, next.files.lookup id = some moved ∧
        (file.commitRequested = true → moved.commitRequested = true) ∧
        (file.abortRequested = true → moved.abortRequested = true) := by
  have replaced : ∀ {id' file' moved}, FileHeld id' record file' →
      next.files = record.files.insert id' moved →
      (file'.commitRequested = true → moved.commitRequested = true) →
      (file'.abortRequested = true → moved.abortRequested = true) →
      next.files.lookup id = some file ∨ ¬file.finished ∧ ∃ moved, next.files.lookup id = some moved ∧
        (file.commitRequested = true → moved.commitRequested = true) ∧
        (file.abortRequested = true → moved.abortRequested = true) := by
    intro id' file' moved held saved commit abort
    by_cases same : id = id'
    · subst same
      obtain rfl := Option.some.inj (found.symm.trans held.found)
      exact .inr ⟨held.unfinished, moved, by rw [saved, AList.lookup_insert], commit, abort⟩
    · exact .inl (by rw [saved, AList.lookup_insert_ne same]; exact found)
  cases change with
  | same saved => exact .inl (saved ▸ found)
  | @admitted o _ _ admits saved =>
    have different : id ≠ o.operationId := by
      rintro rfl
      exact admits.absent (found_mem found)
    exact .inl (by rw [saved, AList.lookup_insert_ne different]; exact found)
  | commit held _ _ _ _ saved => exact (replaced held saved (fun _ => rfl) fun kept => kept).imp_right .inr
  | abort held _ _ saved => exact (replaced held saved (fun kept => kept) fun _ => rfl).imp_right .inr
  | observed held observed saved =>
    obtain ⟨rfl, _⟩ := observe_ok observed
    exact (replaced held saved (fun kept => kept) fun kept => kept).imp_right .inr
  | @dropped gone saved closed =>
    by_cases member : id ∈ gone
    · refine .inr (.inl ⟨?_, (closed id member).covered⟩)
      rw [saved, mem_eraseAll]
      exact fun kept => kept.2 member
    · exact .inl (by rw [saved, eraseAll_lookup, if_neg member]; exact found)

/-- Below a floor no upload is admitted. -/
theorem FilesChange.absent (change : FilesChange files record next)
    (covered : record.Covered .files id) (absent : id ∉ record.files) : id ∉ next.files := by
  have other : ∀ {id' file'}, FileHeld id' record file' → id ≠ id' := by
    rintro id' file' held rfl
    exact absent (found_mem held.found)
  cases change with
  | same saved => rw [saved]; exact absent
  | @admitted o _ _ admits saved =>
    rw [saved, AList.mem_insert]
    refine not_or.mpr ⟨?_, absent⟩
    rintro rfl
    exact (Record.check_ok.mp admits.check).2 covered
  | commit held _ _ _ _ saved => rw [saved, AList.mem_insert]; exact not_or.mpr ⟨other held, absent⟩
  | abort held _ _ saved => rw [saved, AList.mem_insert]; exact not_or.mpr ⟨other held, absent⟩
  | observed held _ saved => rw [saved, AList.mem_insert]; exact not_or.mpr ⟨other held, absent⟩
  | dropped saved =>
    rw [saved, mem_eraseAll]
    exact fun kept => absent kept.1

theorem FilesChange.sealed (change : FilesChange files record next) (raised : Raised record next)
    (sealed : Sealed record id) : Sealed next id := by
  obtain ⟨file, found, requested⟩ | ⟨absent, covered⟩ := sealed
  · obtain kept | dropped | ⟨_, moved, kept, commit, abort⟩ := change.kept found
    · exact .inl ⟨file, kept, requested⟩
    · exact .inr dropped
    · exact .inl ⟨moved, kept, requested.imp commit abort⟩
  · exact .inr ⟨change.absent covered absent, raised.covered covered⟩

/-- What every later record keeps of an earlier one's uploads. -/
structure KeepsFiles (record next : Record) : Prop where
  raised : Raised record next
  ended : Ended record next
  absent : ∀ id, record.Covered .files id → id ∉ record.files → id ∉ next.files

theorem KeepsFiles.trans {last : Record} (first : KeepsFiles record next)
    (second : KeepsFiles next last) : KeepsFiles record last where
  raised := first.raised.trans second.raised
  ended id file found finished := by
    obtain kept | ⟨absent, covered⟩ := first.ended id file found finished
    · exact second.ended id file kept finished
    · exact .inr ⟨second.absent id covered absent, second.raised.covered covered⟩
  absent id covered absent :=
    second.absent id (first.raised.covered covered) (first.absent id covered absent)

theorem Succeeds.keepsFiles (succeeds : Succeeds commands files record next)
    (filed : Filed record) : KeepsFiles record next := by
  refine ⟨(succeeds.raised filed).1, fun id file found finished => ?_, fun _ => succeeds.onFiles.absent⟩
  obtain kept | dropped | ⟨unfinished, _⟩ := succeeds.onFiles.kept found
  · exact .inl kept
  · exact .inr dropped
  · exact absurd finished unfinished

/-! ### What is asked of the guest -/

/-- From this fact on the upload is only inspected. -/
def Fact.seals (id : OperationId) : Fact → Prop
  | .wrote record =>
      ∃ file ∈ record.files.lookup id, file.commitRequested = true ∨ file.abortRequested = true
  | .asked operation action => operation = id ∧ (action = .commit ∨ action = .abort)
  | _ => False

/-- A write, or a commit but for the save right before it, comes before every fact that seals. -/
def Fact.Unsealed (later earlier : Fact) : Prop :=
  (∀ id offset data, later = .asked id (.write offset data) → ¬earlier.seals id) ∧
    ∀ id, later = .asked id .commit → earlier ≠ .asked id .commit ∧ earlier ≠ .asked id .abort ∧
      ∀ record, earlier = .wrote record → ∀ file ∈ record.files.lookup id,
        file.abortRequested = false

theorem wrote_sealed (seals : (Fact.wrote record).seals id) : Sealed record id := .inl seals

theorem Acts.sealed {fact : Fact} (acts : Acts commands files record next fact)
    (seals : fact.seals id) : Sealed next id := by
  cases acts with
  | send => exact seals.elim
  | commit held =>
    obtain ⟨rfl, _⟩ := seals
    exact .inl ⟨_, AList.lookup_insert _, .inl rfl⟩
  | abort held =>
    obtain ⟨rfl, _⟩ := seals
    exact .inl ⟨_, AList.lookup_insert _, .inr rfl⟩

theorem Says.seals {fact : Fact} (known : Says record fact) : ¬fact.seals id := by
  cases known with
  | @answer fact backed =>
    cases fact with
    | wrote | asked => exact backed.elim
    | _ => exact False.elim
  | begin | inspect | write => simp [Fact.seals]

theorem Grows.sealed {next : Host} (grows : Grows commands files s next)
    (journaled : Journaled commands files s)
    (remembers : Remembers (fun id fact => fact.seals id) Sealed s) :
    Remembers (fun id fact => fact.seals id) Sealed next := by
  refine grows.remembers remembers (fun record r id last succeeds held => ?_)
    (fun _ _ => wrote_sealed) (fun _ _ _ _ => Acts.sealed) fun _ _ _ known seals => ?_
  · have filed := journaled.filed record (List.mem_of_mem_head? last)
    exact succeeds.onFiles.sealed (succeeds.raised filed).1 held
  · exact absurd seals known.seals

/-- While a retained upload has neither intent, nothing in the history seals it. -/
theorem unsealed (found : record.files.lookup id = some file)
    (commit : file.commitRequested = false) (abort : file.abortRequested = false)
    (last : s.written.head? = some record)
    (remembers : Remembers (fun id fact => fact.seals id) Sealed s) :
    ∀ fact ∈ s.facts, ¬fact.seals id := by
  intro fact member seals
  obtain ⟨held, also, sealed⟩ := remembers fact member id seals
  obtain rfl := Option.some.inj (last.symm.trans also)
  obtain ⟨file', found', requested⟩ | ⟨absent, _⟩ := sealed
  · obtain rfl := Option.some.inj (found.symm.trans found')
    obtain requested | requested := requested
    · cases commit.symm.trans requested
    · cases abort.symm.trans requested
  · exact absent (found_mem found)

theorem Fact.unsealed_of_ne {later earlier : Fact}
    (write : ∀ id offset data, later ≠ .asked id (.write offset data))
    (commit : ∀ id, later ≠ .asked id .commit) : Fact.Unsealed later earlier :=
  ⟨fun id offset data same => absurd same (write id offset data),
    fun id same => absurd same (commit id)⟩

theorem Says.unsealed {fact : Fact} (known : Says record fact) (last : s.written.head? = some record)
    (remembers : Remembers (fun id fact => fact.seals id) Sealed s) :
    ∀ earlier ∈ s.facts, Fact.Unsealed fact earlier := by
  cases known with
  | @answer fact backed =>
    refine fun _ _ => Fact.unsealed_of_ne (fun _ _ _ same => ?_) fun _ same => ?_
    · subst same; exact backed.elim
    · subst same; exact backed.elim
  | begin => exact fun _ _ => Fact.unsealed_of_ne (fun _ _ _ => by simp) fun _ => by simp
  | inspect => exact fun _ _ => Fact.unsealed_of_ne (fun _ _ _ => by simp) fun _ => by simp
  | write offset data held commit abort =>
    refine fun earlier member => ⟨fun id _ _ same => ?_, fun _ same => by cases same⟩
    obtain ⟨rfl, _⟩ := Fact.asked.inj same
    exact Host.unsealed held.found commit abort last remembers earlier member

theorem Acts.unsealed {fact : Fact} (acts : Acts commands files record next fact)
    (last : s.written.head? = some record)
    (remembers : Remembers (fun id fact => fact.seals id) Sealed s) :
    ∀ earlier ∈ .wrote next :: s.facts, Fact.Unsealed fact earlier := by
  cases acts with
  | send => exact fun _ _ => Fact.unsealed_of_ne (fun _ _ _ => by simp) fun _ => by simp
  | abort => exact fun _ _ => Fact.unsealed_of_ne (fun _ _ _ => by simp) fun _ => by simp
  | commit held commit abort =>
    intro earlier member
    refine ⟨fun _ _ _ same => (by cases same), fun id same => ?_⟩
    obtain ⟨rfl, _⟩ := Fact.asked.inj same
    obtain rfl | member := List.mem_cons.mp member
    · refine ⟨by simp, by simp, fun r wrote file found => ?_⟩
      obtain rfl := Fact.wrote.inj wrote
      rw [AList.lookup_insert] at found
      obtain rfl := Option.some.inj found
      exact abort
    · have open_ := Host.unsealed held.found commit abort last remembers earlier member
      refine ⟨?_, ?_, fun r wrote file found => ?_⟩
      · rintro rfl
        exact open_ ⟨rfl, .inl rfl⟩
      · rintro rfl
        exact open_ ⟨rfl, .inr rfl⟩
      · subst wrote
        by_contra requested
        exact open_ ⟨file, found, .inr (by simpa using requested)⟩

theorem Grows.unsealed {next : Host} (grows : Grows commands files s next)
    (remembers : Remembers (fun id fact => fact.seals id) Sealed s)
    (ordered : s.facts.Pairwise Fact.Unsealed) : next.facts.Pairwise Fact.Unsealed := by
  have wrote : ∀ r, (.wrote r :: s.facts).Pairwise Fact.Unsealed := fun r =>
    ordered.cons fun _ _ => Fact.unsealed_of_ne (fun _ _ _ => by simp) fun _ => by simp
  cases grows with
  | quiet facts => rw [facts]; exact ordered
  | first facts => rw [facts]; exact wrote _
  | saved facts => rw [facts]; exact wrote _
  | acted facts last acts => rw [facts]; exact (wrote _).cons (acts.unsealed last remembers)
  | told facts last known => rw [facts]; exact ordered.cons (known.unsealed last remembers)

/-- A commit that was sent stands right after the save of its intent. -/
def Intended (s : Host) : Prop :=
  ∀ id earlier, .asked id .commit :: earlier <:+ s.facts →
    ∃ record, .wrote record ∈ earlier ∧ ∃ file ∈ record.files.lookup id, file.commitRequested = true

theorem Grows.intended {next : Host} (grows : Grows commands files s next) (intended : Intended s) :
    Intended next := by
  have passed : ∀ {fact : Fact} {facts : List Fact}, (∀ id, fact ≠ .asked id .commit) →
      (∀ id earlier, .asked id .commit :: earlier <:+ facts → .asked id .commit :: earlier <:+ s.facts) →
      ∀ id earlier, .asked id .commit :: earlier <:+ fact :: facts →
        .asked id .commit :: earlier <:+ s.facts := by
    intro fact facts other rest id earlier suffix
    obtain same | suffix := List.suffix_cons_iff.mp suffix
    · exact absurd (List.cons.inj same).1.symm (other id)
    · exact rest id earlier suffix
  have wrote : ∀ {r : Record}, ∀ id earlier, .asked id .commit :: earlier <:+ .wrote r :: s.facts →
      .asked id .commit :: earlier <:+ s.facts :=
    fun {r} => passed (fun _ => by simp) fun _ _ suffix => suffix
  intro id earlier suffix
  cases grows with
  | quiet facts => exact intended id earlier (facts ▸ suffix)
  | first facts => exact intended id earlier (wrote id earlier (facts ▸ suffix))
  | saved facts => exact intended id earlier (wrote id earlier (facts ▸ suffix))
  | told facts last known =>
    refine intended id earlier (passed (fun id same => ?_) (fun _ _ suffix => suffix) id earlier
      (facts ▸ suffix))
    subst same
    cases known with
    | answer backed => exact backed.elim
  | acted facts last acts =>
    cases acts with
    | send => exact intended id earlier (passed (fun _ => by simp) wrote id earlier (facts ▸ suffix))
    | abort => exact intended id earlier (passed (fun _ => by simp) wrote id earlier (facts ▸ suffix))
    | commit held =>
      rw [facts] at suffix
      obtain same | suffix := List.suffix_cons_iff.mp suffix
      · obtain ⟨asked, rfl⟩ := List.cons.inj same
        obtain ⟨rfl, _⟩ := Fact.asked.inj asked
        exact ⟨_, List.mem_cons_self, _, AList.lookup_insert _, rfl⟩
      · exact intended id earlier (wrote id earlier suffix)

theorem Reached.uploads {allocation : AllocationId} {host : HostId} {permits : Bool}
    (reached : Reached commands files fences (Host.new allocation host permits) s) :
    Remembers (fun id fact => fact.seals id) Sealed s ∧ s.facts.Pairwise Fact.Unsealed ∧
      Intended s := by
  induction reached with
  | refl =>
    refine ⟨fun _ none => (by cases none), List.Pairwise.nil, fun _ _ suffix => ?_⟩
    cases List.eq_nil_of_suffix_nil suffix
  | tail reached move ih =>
    have journaled := Reached.journaled reached
    have grows := move.grows journaled
    exact ⟨grows.sealed journaled ih.1, grows.unsealed ih.1 ih.2.1, grows.intended ih.2.2⟩

/-- A commit follows the save of its intent, is sent once and never after an abort; no chunk
follows either intent; and an end, once recorded, stays, and was asked for. -/
theorem run_uploads (commands : CommandEncoding) (files : FileEncoding) (allocation : AllocationId)
    (host : HostId) (permits : Bool) (events : List Event) :
    let s := run (step commands files) (Host.new allocation host permits) events
    Intended s ∧ s.facts.Pairwise Fact.Unsealed ∧
      (s.written.Pairwise fun later earlier => Ended earlier later) ∧
      ∀ record ∈ s.written, ∀ id file, record.files.lookup id = some file →
        (file.state = 3 → file.commitRequested = true) ∧
          (file.state = 5 → file.abortRequested = true) := by
  intro s
  have reached := run_reached commands files allocation host permits events
  have journaled := reached.journaled
  obtain ⟨_, ordered, intended⟩ := reached.uploads
  have valid := journaled.all (P := FilesValid files)
    (fun _ initial id file found => by rw [initial.noFiles] at found; cases found)
    fun _ _ valid succeeds => succeeds.onFiles.valid valid
  have kept := journaled.pairwise (fun _ => Initial.filed)
    (fun r next filed succeeds => ⟨(succeeds.raised filed).2, succeeds.keepsFiles filed⟩)
    fun _ _ _ => KeepsFiles.trans
  exact ⟨intended, ordered, kept.imp KeepsFiles.ended, fun record member id file found =>
    validate_intended (valid record member id file found)⟩

end
end HudsonSandbox.Host
