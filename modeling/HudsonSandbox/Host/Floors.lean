import HudsonSandbox.Host.Durable

/-!
# Floors, and the records above them

An identity at or below a floor of its domain is refused whatever becomes of its record, so what
a change may do to the retained commands and uploads is one of four things: leave them, add one
above the floors, move an unfinished one, or drop resolved ones that a floor has closed.
-/

namespace HudsonSandbox.Host
open Checked LiveOutput GuestModel Command History SupervisorFiles Supervisor Output Effect Run
  Files

section
variable {commands : CommandEncoding} {files : FileEncoding} {fences : OperationId → Prop}
  {s : Host} {record next : Record}
  {o : Ownership} {domain other : Domain} {id : OperationId} {ids : List OperationId}

namespace Record

/-- The identity lies at or below a floor of the domain. -/
def Covered (record : Record) (domain : Domain) (id : OperationId) : Prop :=
  (∃ r ∈ record.slot domain, r.barrier.covers id) ∨
    ∃ r ∈ record.releasedSlot domain, id ≤ r.through

/-- The identity lies at or below a floor that was carried out. -/
def Closed (record : Record) (domain : Domain) (id : OperationId) : Prop :=
  (∃ r ∈ record.slot domain, r.completed = true ∧ r.barrier.covers id) ∨
    ∃ r ∈ record.releasedSlot domain, id ≤ r.through

theorem Closed.covered (closed : record.Closed domain id) : record.Covered domain id := by
  obtain ⟨r, found, _, covers⟩ | released := closed
  · exact .inl ⟨r, found, covers⟩
  · exact .inr released

theorem check_ok : record.check domain id = .ok () ↔
    record.retirement = none ∧ ¬record.Covered domain id := by
  unfold check retirementCheck Covered
  simp only [seq_ok, ensure_ok]
  refine ⟨fun ⟨unretired, released, live⟩ => ⟨unretired, ?_⟩, fun ⟨unretired, open_⟩ => ⟨unretired, ?_⟩⟩
  · rintro (⟨r, found, covers⟩ | ⟨r, found, below⟩)
    · exact live r found covers
    · exact released r found below
  · exact ⟨fun r found below => open_ (.inr ⟨r, found, below⟩),
      fun r found covers => open_ (.inl ⟨r, found, covers⟩)⟩

end Record

/-- No floor of the second record is below the first record's, and no claim older. -/
structure Raised (record next : Record) : Prop where
  live : ∀ domain, ∀ r ∈ record.slot domain, ∃ r' ∈ next.slot domain,
    r.barrier.through ≤ r'.barrier.through ∧ r.revision ≤ r'.revision
  released : ∀ domain, ∀ r ∈ record.releasedSlot domain, ∃ r' ∈ next.releasedSlot domain,
    r.through ≤ r'.through ∧ r.revision ≤ r'.revision

theorem Raised.covered (raised : Raised record next) (covered : record.Covered domain id) :
    next.Covered domain id := by
  obtain ⟨r, found, covers⟩ | ⟨r, found, below⟩ := covered
  · obtain ⟨r', found', higher, _⟩ := raised.live domain r found
    exact .inl ⟨r', found', le_trans covers higher⟩
  · obtain ⟨r', found', higher, _⟩ := raised.released domain r found
    exact .inr ⟨r', found', below.trans higher⟩

theorem Raised.of_eq (live : next.slot = record.slot) (released : next.releasedSlot = record.releasedSlot) :
    Raised record next :=
  ⟨fun _ r found => ⟨r, live ▸ found, le_rfl, le_rfl⟩,
    fun _ r found => ⟨r, released ▸ found, le_rfl, le_rfl⟩⟩

theorem Raised.trans {last : Record} (first : Raised record next) (second : Raised next last) :
    Raised record last where
  live domain r found := by
    obtain ⟨r', found', higher, newer⟩ := first.live domain r found
    obtain ⟨r'', found'', higher', newer'⟩ := second.live domain r' found'
    exact ⟨r'', found'', higher.trans higher', newer.trans newer'⟩
  released domain r found := by
    obtain ⟨r', found', higher, newer⟩ := first.released domain r found
    obtain ⟨r'', found'', higher', newer'⟩ := second.released domain r' found'
    exact ⟨r'', found'', higher.trans higher', newer.trans newer'⟩

/-- A live floor is kept under its own domain. -/
def Filed (record : Record) : Prop := ∀ domain, ∀ r ∈ record.slot domain, r.barrier.domain = domain

theorem Filed.of_eq (filed : Filed record) (live : next.slot = record.slot) : Filed next :=
  fun domain r found => filed domain r (live ▸ found)

theorem setSlot_filed {retirement : Retirement} (filed : Filed record) :
    Filed (record.setSlot retirement.barrier.domain (some retirement)) := by
  intro domain r found
  by_cases same : domain = retirement.barrier.domain
  · subst same
    rw [Record.setSlot_slot] at found
    obtain rfl := Option.some.inj found
    rfl
  · rw [Record.setSlot_other same] at found
    exact filed domain r found

theorem setSlot_raised {retirement : Retirement} (higher : ∀ r ∈ record.slot retirement.barrier.domain,
      r.barrier.through ≤ retirement.barrier.through ∧ r.revision ≤ retirement.revision) :
    Raised record (record.setSlot retirement.barrier.domain (some retirement)) where
  live domain r found := by
    by_cases same : domain = retirement.barrier.domain
    · subst same
      rw [Record.setSlot_slot]
      exact ⟨retirement, rfl, higher r found⟩
    · rw [Record.setSlot_other same]
      exact ⟨r, found, le_rfl, le_rfl⟩
  released domain r found := by
    rw [Record.setSlot_releasedSlot]
    exact ⟨r, found, le_rfl, le_rfl⟩

theorem setReleasedSlot_raised {released : ReleasedRetirement}
    (higher : ∀ r ∈ record.releasedSlot domain,
      r.through ≤ released.through ∧ r.revision ≤ released.revision) :
    Raised record (record.setReleasedSlot domain (some released)) where
  live domain r found := by
    rw [Record.setReleasedSlot_slot]
    exact ⟨r, found, le_rfl, le_rfl⟩
  released other r found := by
    by_cases same : other = domain
    · subst same
      rw [Record.setReleasedSlot_releasedSlot]
      exact ⟨released, rfl, higher r found⟩
    · rw [Record.setReleasedSlot_other same]
      exact ⟨r, found, le_rfl, le_rfl⟩

/-- A prepared floor is filed where it was asked for, and is not below the retained one. -/
theorem prepare_raises {requested : Barrier} {revision : ℤ} {retirement : Retirement}
    (filed : Filed record) (passed : prepare files record requested revision = .ok retirement) :
    retirement.barrier.domain = requested.domain ∧
      ∀ r ∈ record.slot requested.domain, r.barrier.through ≤ retirement.barrier.through ∧
        r.revision ≤ retirement.revision := by
  obtain ⟨_, _, _, _, revised, _, ⟨held, found, _, stale, _, same, _⟩ | ⟨same, _, _, beyond⟩⟩ :=
    prepare_ok passed
  · refine ⟨same ▸ filed _ held found, fun r also => ?_⟩
    obtain rfl := Option.some.inj (found.symm.trans also)
    exact ⟨le_of_eq (by rw [same]), revised ▸ stale⟩
  · refine ⟨by rw [same], fun r found => ?_⟩
    obtain ⟨_, _, stale, higher⟩ := beyond r found
    exact ⟨by rw [same]; exact le_of_not_ge higher, revised ▸ stale⟩

theorem Change.raised (change : Change commands files fences s record next) (filed : Filed record) :
    Raised record next ∧ Filed next := by
  cases change with
  | fenceCommand _ _ passed | fenceFile _ passed | fenceLifecycle _ _ passed =>
    obtain ⟨_, _, _, rfl⟩ := fenced_ok passed
    exact ⟨.of_eq rfl rfl, filed.of_eq rfl⟩
  | lease passed =>
    obtain ⟨_, rfl⟩ := leased_ok passed
    exact ⟨.of_eq rfl rfl, filed.of_eq rfl⟩
  | outputPrepared _ _ passed =>
    obtain ⟨_, rfl⟩ := outputPrepared_ok passed
    exact ⟨.of_eq rfl rfl, filed.of_eq rfl⟩
  | outputPlanned passed =>
    obtain ⟨_, rfl⟩ := outputPlanned_ok passed
    exact ⟨.of_eq rfl rfl, filed.of_eq rfl⟩
  | freeze _ _ passed =>
    obtain ⟨_, rfl⟩ := frozen_ok passed.choose_spec
    exact ⟨.of_eq rfl rfl, filed.of_eq rfl⟩
  | floor prepared =>
    obtain ⟨same, higher⟩ := prepare_raises filed prepared
    exact ⟨setSlot_raised (same ▸ higher), setSlot_filed filed⟩
  | complete passed =>
    obtain ⟨current, found, same, _, _, rfl⟩ := complete_ok passed
    rw [← same] at found ⊢
    let finished : Retirement := { current with completed := true }
    let ids := (record.names current.barrier.domain).filter fun id => current.barrier.covers id
    have live : (record.remove current.barrier.domain ids).slot = record.slot :=
      funext fun _ => Record.remove_slot
    have removed : Raised record (record.remove current.barrier.domain ids) :=
      .of_eq live (funext fun _ => Record.remove_releasedSlot)
    have marked : Raised (record.remove current.barrier.domain ids)
        ((record.remove current.barrier.domain ids).setSlot finished.barrier.domain (some finished)) := by
      refine setSlot_raised fun r also => ?_
      rw [live] at also
      obtain rfl := Option.some.inj (found.symm.trans also)
      exact ⟨le_rfl, le_rfl⟩
    have filed : Filed ((record.remove current.barrier.domain ids).setSlot finished.barrier.domain
        (some finished)) := setSlot_filed (filed.of_eq live)
    exact ⟨removed.trans marked, filed⟩
  | reclaim _ _ passed =>
    obtain ⟨_, _, _, prefixed, _, _, rfl⟩ := reclaim_ok passed
    obtain ⟨_, older⟩ := reclaimThrough_ok prefixed
    refine ⟨Raised.trans (.of_eq (funext fun _ => Record.remove_slot)
      (funext fun _ => Record.remove_releasedSlot)) (setReleasedSlot_raised fun r found => ?_), ?_⟩
    · rw [Record.remove_releasedSlot] at found
      exact ⟨(older r found).1, (older r found).2.1⟩
    · exact filed.of_eq (funext fun _ => by simp)
  | _ => exact ⟨.of_eq rfl rfl, filed.of_eq rfl⟩

theorem Initial.filed (initial : Initial record) : Filed record := by
  cases initial with
  | opened => exact fun domain r found => by cases domain <;> cases found
  | fenced _ _ passed =>
    obtain ⟨_, rfl⟩ := frozen_ok passed
    exact fun domain r found => by cases domain <;> cases found

theorem Succeeds.raised (succeeds : Succeeds commands files record next) (filed : Filed record) :
    Raised record next ∧ Filed next := by
  cases succeeds with
  | changed change => exact change.raised filed
  | reopened => exact ⟨.of_eq rfl rfl, filed.of_eq rfl⟩

theorem Journaled.filed (journaled : Journaled commands files s) : ∀ r ∈ s.written, Filed r :=
  journaled.all (fun _ => Initial.filed) fun _ _ filed succeeds => (succeeds.raised filed).2

/-! ### Retained commands -/

/-- What a change may do to the retained commands. -/
inductive CommandsChange (commands : CommandEncoding) (record next : Record) : Prop where
  | same (saved : next.commands = record.commands)
  | tombstone {o digest} (held : CommandHeld o record) (absent : o.operationId ∉ record.commands)
      (saved : next.commands =
        record.commands.insert o.operationId (CommandRecord.fenced digest))
  | intended {o command retained} (intends : Intends commands o record command retained)
      (saved : next.commands = record.commands.insert o.operationId retained)
  | confirmed {id command receipt} (found : record.commands.lookup id = some command)
      (unfinished : ¬command.finished) (valid : command.validateReceipt id receipt = .ok ())
      (saved : next.commands = record.commands.insert id { command with receipt := some receipt })
  | dropped {gone} (saved : next.commands = eraseAll record.commands gone)
      (closed : ∀ id ∈ gone, next.Closed .commands id)
      (resolved : ∀ id ∈ gone, ∀ command ∈ record.commands.lookup id, command.finished)

theorem mem_entries {V : Type} {map : Map V} {value : V} (found : map.lookup id = some value) :
    ⟨id, value⟩ ∈ map.entries :=
  AList.mem_lookup_iff.mp found

theorem Change.onCommands (change : Change commands files fences s record next) :
    CommandsChange commands record next := by
  cases change with
  | fenceCommand _ _ passed | fenceFile _ passed | fenceLifecycle _ _ passed =>
    obtain ⟨_, _, _, rfl⟩ := fenced_ok passed
    exact .same rfl
  | lease passed =>
    obtain ⟨_, rfl⟩ := leased_ok passed
    exact .same rfl
  | outputPrepared _ _ passed =>
    obtain ⟨_, rfl⟩ := outputPrepared_ok passed
    exact .same rfl
  | outputPlanned passed =>
    obtain ⟨_, rfl⟩ := outputPlanned_ok passed
    exact .same rfl
  | freeze _ _ passed =>
    obtain ⟨_, rfl⟩ := frozen_ok passed.choose_spec
    exact .same rfl
  | floor => exact .same (by simp)
  | tombstone held _ absent => exact .tombstone held absent rfl
  | intend intends => exact .intended intends rfl
  | confirm found unfinished valid => exact .confirmed found unfinished valid rfl
  | @complete retirement _ passed =>
    obtain ⟨current, found, same, _, resolved, rfl⟩ := complete_ok passed
    cases domain : retirement.barrier.domain with
    | files => exact .same (by simp)
    | commands =>
      refine .dropped (by simp; rfl) (fun id member => ?_) fun id member command retained => ?_
      · have covers : retirement.barrier.covers id := by simpa using (List.mem_filter.mp member).2
        exact .inl ⟨_, Record.setSlot_slot, rfl, by rw [same]; exact covers⟩
      · have covers : retirement.barrier.covers id := by simpa using (List.mem_filter.mp member).2
        rw [eligible, domain] at resolved
        exact (resolved _ (mem_entries retained) covers).1
  | @reclaim _ domain _ _ _ completed _ _ passed =>
    obtain ⟨_, _, _, _, _, resolved, rfl⟩ := reclaim_ok passed
    cases domain with
    | files => exact .same (by simp)
    | commands =>
      refine .dropped (by simp; rfl) (fun id member => ?_) fun id member command retained => ?_
      · have below : id ≤ completed := by simpa using (List.mem_filter.mp member).2
        exact .inr ⟨_, Record.setReleasedSlot_releasedSlot, below⟩
      · exact (resolved _ (mem_entries retained) member).1
  | _ => exact .same rfl

/-! ### Retained uploads -/

/-- An upload whose end is known. -/
def FileRecord.resolved (file : FileRecord) : Prop :=
  file.notStarted = true ∨ file.state = 3 ∨ file.state = 5

/-- What a change may do to the retained uploads. -/
inductive FilesChange (files : FileEncoding) (record next : Record) : Prop where
  | same (saved : next.files = record.files)
  | admitted {o upload file} (admits : AdmitsFile files o record upload file)
      (saved : next.files = record.files.insert o.operationId file)
  | commit {id file} (held : FileHeld id record file) (commit : file.commitRequested = false)
      (abort : file.abortRequested = false) (staged : file.state = 1)
      (valid : { file with commitRequested := true }.validate files = .ok ())
      (saved : next.files = record.files.insert id { file with commitRequested := true })
  | abort {id file} (held : FileHeld id record file) (abort : file.abortRequested = false)
      (valid : { file with abortRequested := true }.validate files = .ok ())
      (saved : next.files = record.files.insert id { file with abortRequested := true })
  | observed {id file upload receipt moved} (held : FileHeld id record file)
      (observed : file.observe files upload receipt = .ok moved)
      (saved : next.files = record.files.insert id moved)
  | dropped {gone} (saved : next.files = eraseAll record.files gone)
      (closed : ∀ id ∈ gone, next.Closed .files id)
      (resolved : ∀ id ∈ gone, ∀ file ∈ record.files.lookup id, FileRecord.resolved file)

theorem Change.onFiles (change : Change commands files fences s record next) :
    FilesChange files record next := by
  cases change with
  | fenceCommand _ _ passed | fenceFile _ passed | fenceLifecycle _ _ passed =>
    obtain ⟨_, _, _, rfl⟩ := fenced_ok passed
    exact .same rfl
  | lease passed =>
    obtain ⟨_, rfl⟩ := leased_ok passed
    exact .same rfl
  | outputPrepared _ _ passed =>
    obtain ⟨_, rfl⟩ := outputPrepared_ok passed
    exact .same rfl
  | outputPlanned passed =>
    obtain ⟨_, rfl⟩ := outputPlanned_ok passed
    exact .same rfl
  | freeze _ _ passed =>
    obtain ⟨_, rfl⟩ := frozen_ok passed.choose_spec
    exact .same rfl
  | floor => exact .same (by simp)
  | admitFile admits => exact .admitted admits rfl
  | requestCommit held commit abort staged valid => exact .commit held commit abort staged valid rfl
  | requestAbort held abort valid => exact .abort held abort valid rfl
  | observeFile held observed => exact .observed held observed rfl
  | @complete retirement _ passed =>
    obtain ⟨current, found, same, _, resolved, rfl⟩ := complete_ok passed
    cases domain : retirement.barrier.domain with
    | commands => exact .same (by simp)
    | files =>
      refine .dropped (by simp; rfl) (fun id member => ?_) fun id member file retained => ?_
      · have covers : retirement.barrier.covers id := by simpa using (List.mem_filter.mp member).2
        exact .inl ⟨_, Record.setSlot_slot, rfl, by rw [same]; exact covers⟩
      · have covers : retirement.barrier.covers id := by simpa using (List.mem_filter.mp member).2
        rw [eligible, domain] at resolved
        exact (resolved _ (mem_entries retained) covers).2.1
  | @reclaim _ domain _ _ _ completed _ _ passed =>
    obtain ⟨_, _, _, _, _, resolved, rfl⟩ := reclaim_ok passed
    cases domain with
    | commands => exact .same (by simp)
    | files =>
      refine .dropped (by simp; rfl) (fun id member => ?_) fun id member file retained => ?_
      · have below : id ≤ completed := by simpa using (List.mem_filter.mp member).2
        exact .inr ⟨_, Record.setReleasedSlot_releasedSlot, below⟩
      · exact (resolved _ (mem_entries retained) member).2.imp_right fun known => known.1
  | _ => exact .same rfl

theorem Succeeds.onCommands (succeeds : Succeeds commands files record next) :
    CommandsChange commands record next := by
  cases succeeds with
  | changed change => exact change.onCommands
  | reopened => exact .same rfl

theorem Succeeds.onFiles (succeeds : Succeeds commands files record next) :
    FilesChange files record next := by
  cases succeeds with
  | changed change => exact change.onFiles
  | reopened => exact .same rfl

end
end HudsonSandbox.Host
