import HudsonSandbox.Host.CommandHistory
import HudsonSandbox.Host.Exact
import HudsonSandbox.Host.UploadHistory

/-!
# Floors over a run

A floor only rises, and what it has closed stays closed: no record below it comes back, and none
was dropped before its end was known. A claim that is used again for something else changes
nothing.
-/

namespace HudsonSandbox.Host
open Checked LiveOutput GuestModel Command History SupervisorFiles Supervisor Output Effect Run
  Files

section
variable {commands : CommandEncoding} {files : FileEncoding} {fences : OperationId → Prop}
  {s : Host} {record next : Record}
  {domain : Domain} {id : OperationId}

/-! ### What a completed floor leaves -/

/-- No record is left at or below a floor that was carried out. -/
def Cleared (record : Record) : Prop :=
  ∀ domain id, record.Closed domain id → id ∉ record.names domain

/-- The domain retains a record of the operation whose end is not known. -/
def Unresolved (record : Record) (id : OperationId) : Domain → Prop
  | .commands => ∃ command ∈ record.commands.lookup id, ¬command.finished
  | .files => ∃ file ∈ record.files.lookup id, ¬FileRecord.resolved file

theorem mem_names_commands : id ∈ record.names .commands ↔ id ∈ record.commands := Iff.rfl

theorem mem_names_files : id ∈ record.names .files ↔ id ∈ record.files := Iff.rfl

theorem Succeeds.unresolved (succeeds : Succeeds commands files record next)
    (pending : Unresolved record id domain) : id ∈ next.names domain := by
  cases domain with
  | commands =>
    obtain ⟨command, found, unfinished⟩ := pending
    have retained : id ∈ record.commands := AList.lookup_isSome.mp (by rw [Option.mem_def.mp found]; rfl)
    rw [mem_names_commands]
    cases succeeds.onCommands with
    | same saved => exact saved ▸ retained
    | tombstone _ _ saved => rw [saved, AList.mem_insert]; exact .inr retained
    | intended _ saved => rw [saved, AList.mem_insert]; exact .inr retained
    | confirmed _ _ _ saved => rw [saved, AList.mem_insert]; exact .inr retained
    | dropped saved closed resolved =>
      rw [saved, mem_eraseAll]
      exact ⟨retained, fun member => unfinished (resolved id member command found)⟩
  | files =>
    obtain ⟨file, found, unknown⟩ := pending
    have retained := found_mem (Option.mem_def.mp found)
    rw [mem_names_files]
    cases succeeds.onFiles with
    | same saved => exact saved ▸ retained
    | admitted _ saved => rw [saved, AList.mem_insert]; exact .inr retained
    | commit _ _ _ _ _ saved => rw [saved, AList.mem_insert]; exact .inr retained
    | abort _ _ _ saved => rw [saved, AList.mem_insert]; exact .inr retained
    | observed _ _ saved => rw [saved, AList.mem_insert]; exact .inr retained
    | dropped saved closed resolved =>
      rw [saved, mem_eraseAll]
      exact ⟨retained, fun member => unknown (resolved id member file found)⟩

/-- Below a floor no record appears, in either domain. -/
theorem Succeeds.absent (succeeds : Succeeds commands files record next)
    (covered : record.Covered domain id) (absent : id ∉ record.names domain) :
    id ∉ next.names domain := by
  cases domain with
  | commands => exact succeeds.onCommands.absent covered absent
  | files => exact succeeds.onFiles.absent covered absent

theorem floor_closed {requested : Barrier} {revision : ℤ} {retirement : Retirement}
    (filed : Filed record) (prepared : prepare files record requested revision = .ok retirement)
    (closed : (record.setSlot retirement.barrier.domain (some retirement)).Closed domain id) :
    record.Closed domain id := by
  obtain ⟨same, _⟩ := prepare_raises filed prepared
  obtain ⟨r, found, completed, covers⟩ | released := closed
  · by_cases here : domain = retirement.barrier.domain
    · subst here
      rw [Record.setSlot_slot] at found
      obtain rfl := Option.some.inj found
      obtain ⟨_, _, _, _, _, _, ⟨held, retained, _, _, _, barrier, done⟩ | ⟨_, pending, _⟩⟩ :=
        prepare_ok prepared
      · exact .inl ⟨held, same ▸ retained, done ▸ completed, barrier ▸ covers⟩
      · cases pending.symm.trans completed
    · rw [Record.setSlot_other here] at found
      exact .inl ⟨r, found, completed, covers⟩
  · rw [Record.setSlot_releasedSlot] at released
    exact .inr released

theorem complete_closed {retirement current : Retirement} {gone : List OperationId}
    (same : current.barrier = retirement.barrier)
    (closed : ((record.remove retirement.barrier.domain gone).setSlot retirement.barrier.domain
      (some { current with completed := true })).Closed domain id) :
    domain = retirement.barrier.domain ∧ retirement.barrier.covers id ∨ record.Closed domain id := by
  obtain ⟨r, found, completed, covers⟩ | released := closed
  · by_cases here : domain = retirement.barrier.domain
    · subst here
      rw [Record.setSlot_slot] at found
      obtain rfl := Option.some.inj found
      exact .inl ⟨rfl, same ▸ covers⟩
    · rw [Record.setSlot_other here, Record.remove_slot] at found
      exact .inr (.inl ⟨r, found, completed, covers⟩)
  · rw [Record.setSlot_releasedSlot, Record.remove_releasedSlot] at released
    exact .inr (.inr released)

theorem reclaim_closed {reclaimed : Domain} {released : ReleasedRetirement} {gone : List OperationId}
    (closed : ((record.remove reclaimed gone).setReleasedSlot reclaimed (some released)).Closed
      domain id) :
    domain = reclaimed ∧ id ≤ released.through ∨ record.Closed domain id := by
  obtain ⟨r, found, completed, covers⟩ | ⟨r, found, below⟩ := closed
  · rw [Record.setReleasedSlot_slot, Record.remove_slot] at found
    exact .inr (.inl ⟨r, found, completed, covers⟩)
  · by_cases here : domain = reclaimed
    · subst here
      rw [Record.setReleasedSlot_releasedSlot] at found
      obtain rfl := Option.some.inj found
      exact .inl ⟨rfl, below⟩
    · rw [Record.setReleasedSlot_other here, Record.remove_releasedSlot] at found
      exact .inr (.inr ⟨r, found, below⟩)

theorem Change.cleared (change : Change commands files fences s record next) (filed : Filed record)
    (cleared : Cleared record) : Cleared next := by
  -- What was closed before stays dropped; a floor that has just been carried out drops the rest.
  have before : ∀ {domain id}, record.Closed domain id → id ∉ next.names domain := fun closed =>
    Succeeds.absent (.changed change) closed.covered (cleared _ _ closed)
  have kept : next.slot = record.slot → next.releasedSlot = record.releasedSlot → Cleared next := by
    intro live released domain id closed
    refine before ?_
    unfold Record.Closed at closed ⊢
    rwa [live, released] at closed
  cases change with
  | fenceCommand _ _ passed | fenceFile _ passed | fenceLifecycle _ _ passed =>
    obtain ⟨_, _, _, rfl⟩ := fenced_ok passed
    exact kept rfl rfl
  | lease passed =>
    obtain ⟨_, rfl⟩ := leased_ok passed
    exact kept rfl rfl
  | outputPrepared _ _ passed =>
    obtain ⟨_, rfl⟩ := outputPrepared_ok passed
    exact kept rfl rfl
  | outputPlanned passed =>
    obtain ⟨_, rfl⟩ := outputPlanned_ok passed
    exact kept rfl rfl
  | freeze _ _ passed =>
    obtain ⟨_, rfl⟩ := frozen_ok passed.choose_spec
    exact kept rfl rfl
  | floor prepared => exact fun _ _ closed => before (floor_closed filed prepared closed)
  | complete passed =>
    obtain ⟨current, _, same, _, _, rfl⟩ := complete_ok passed
    intro domain id closed
    obtain ⟨rfl, covers⟩ | closed := complete_closed same closed
    · rw [Record.setSlot_names, Record.mem_remove_names]
      rintro ⟨named, kept⟩
      exact kept (List.mem_filter.mpr ⟨named, by simpa using covers⟩)
    · exact before closed
  | reclaim _ _ passed =>
    obtain ⟨_, _, _, _, _, _, rfl⟩ := reclaim_ok passed
    intro domain id closed
    obtain ⟨rfl, below⟩ | closed := reclaim_closed closed
    · rw [Record.setReleasedSlot_names, Record.mem_remove_names]
      rintro ⟨named, kept⟩
      exact kept (List.mem_filter.mpr ⟨named, by simpa using below⟩)
    · exact before closed
  | _ => exact kept rfl rfl

theorem Initial.cleared (initial : Initial record) : Cleared record := by
  rintro domain id (⟨r, found, _⟩ | ⟨r, found, _⟩)
  all_goals
    cases initial with
    | opened => cases domain <;> cases found
    | fenced _ _ passed =>
      obtain ⟨_, rfl⟩ := frozen_ok passed
      cases domain <;> cases found

theorem Succeeds.cleared (succeeds : Succeeds commands files record next) (filed : Filed record)
    (cleared : Cleared record) : Cleared next := by
  cases succeeds with
  | changed change => exact change.cleared filed cleared
  | reopened => exact fun domain id closed => cleared domain id closed

/-! ### Released floors stand on an end that was observed -/

/-- A released floor is only on a record of which nothing runs any more. -/
def Reclaimed (record : Record) : Prop :=
  ∀ domain, record.releasedSlot domain ≠ none → record.stopped = true ∧ record.Ended

theorem Reclaimed.of_eq (reclaimed : Reclaimed record)
    (released : next.releasedSlot = record.releasedSlot) (stopped : next.stopped = record.stopped)
    (ended : record.Ended → next.Ended) : Reclaimed next := by
  intro domain some
  rw [released] at some
  exact (reclaimed domain some).imp (fun held => stopped.trans held) ended

theorem Change.reclaimed (change : Change commands files fences s record next)
    (reclaimed : Reclaimed record) : Reclaimed next := by
  cases change with
  | fenceCommand _ _ passed | fenceFile _ passed | fenceLifecycle _ _ passed =>
    obtain ⟨_, _, _, rfl⟩ := fenced_ok passed
    exact reclaimed.of_eq rfl rfl fun ended => ended
  | lease passed =>
    obtain ⟨_, rfl⟩ := leased_ok passed
    exact reclaimed.of_eq rfl rfl fun ended => ended
  | outputPrepared _ _ passed =>
    obtain ⟨_, rfl⟩ := outputPrepared_ok passed
    exact reclaimed.of_eq rfl rfl fun ended => ended
  | outputPlanned passed =>
    obtain ⟨_, rfl⟩ := outputPlanned_ok passed
    exact reclaimed.of_eq rfl rfl fun ended => ended
  | freeze _ _ passed =>
    obtain ⟨_, rfl⟩ := frozen_ok passed.choose_spec
    exact fun domain some => ⟨rfl, (reclaimed domain some).2⟩
  | stop => exact fun domain some => ⟨rfl, (reclaimed domain some).2⟩
  | release => exact fun _ _ => ⟨rfl, .inr rfl⟩
  | create _ running =>
    exact fun domain some => absurd (reclaimed domain some).1 (by rw [running]; decide)
  | floor =>
    refine reclaimed.of_eq (funext fun _ => by simp) (by simp) fun ended => ?_
    simpa [Record.Ended] using ended
  | complete passed =>
    obtain ⟨_, _, _, _, _, rfl⟩ := complete_ok passed
    refine reclaimed.of_eq (funext fun _ => by simp) (by simp) fun ended => ?_
    simpa [Record.Ended] using ended
  | reclaim _ ended passed =>
    obtain ⟨stopped, _, _, _, _, _, rfl⟩ := reclaim_ok passed
    exact fun _ _ => ⟨by simpa using stopped, by simpa [Record.Ended] using ended⟩
  | _ => exact reclaimed.of_eq rfl rfl fun ended => ended

theorem Journaled.reclaimed (journaled : Journaled commands files s) :
    ∀ r ∈ s.written, Reclaimed r := by
  refine journaled.all (fun r initial => ?_) fun r next reclaimed succeeds => ?_
  · intro domain some
    cases initial with
    | opened => cases domain <;> exact absurd rfl some
    | fenced _ _ passed =>
      obtain ⟨_, rfl⟩ := frozen_ok passed
      cases domain <;> exact absurd rfl some
  · cases succeeds with
    | changed change => exact change.reclaimed reclaimed
    | reopened => exact fun domain some => ⟨rfl, (reclaimed domain some).2⟩

/-! ### Claims that are used again -/

/-- The request names a claim that the record has already seen with something else. -/
def Reused (s : Host) : Waiting → Prop
  | .retireHistory _ _ lease barrier => ∃ record ∈ s.record, ∃ held ∈ record.slot barrier.domain,
      lease.revision = held.revision ∧
        (barrier.through ≠ held.requestedThrough ∨ barrier.context ≠ held.barrier.context)
  | .retireReleasedHistory _ request lease domain through => ∃ record ∈ s.record,
      ∃ held ∈ record.releasedSlot domain, lease.revision = held.revision ∧
        (through ≠ held.requestedThrough ∨ request.reportingEpoch ≠ held.reportingEpoch)
  | _ => False

theorem prepare_reused {barrier : Barrier} {revision : ℤ} {held retirement : Retirement}
    (found : record.slot barrier.domain = some held) (same : revision = held.revision)
    (changed : barrier.through ≠ held.requestedThrough ∨ barrier.context ≠ held.barrier.context) :
    prepare files record barrier revision ≠ .ok retirement := by
  intro passed
  obtain ⟨_, passed⟩ := seq_ok.mp passed
  obtain ⟨_, passed⟩ := seq_ok.mp passed
  obtain ⟨_, passed⟩ := seq_ok.mp passed
  obtain ⟨_, renewed, _⟩ := bind_ok.mp passed
  obtain ⟨missing, _⟩ | ⟨current, retained, context, _, payload, _⟩ := renew_ok renewed
  · cases found.symm.trans missing
  · obtain rfl := Option.some.inj (found.symm.trans retained)
    obtain other | other := changed
    · exact other (payload same)
    · exact other context.symm

theorem retireHistory_reused {o : Ownership} {request : HistoryRequest} {lease : LeaseOwnership}
    {barrier : Barrier} {t : HistoryTurns}
    (reused : Reused s (.retireHistory o request lease barrier)) :
    Reads s (retireHistory files o request lease barrier t) fun _ => False := by
  obtain ⟨record, held, retirement, slot, same, changed⟩ := reused
  refine Reads.bind Reads.check fun _ _ => Reads.bind Reads.read fun current found =>
    Reads.bind Reads.check fun _ _ => Reads.bind Reads.check fun prepared passed => ?_
  obtain rfl := Option.some.inj (found.1.symm.trans held)
  exact absurd (mapError_ok.mp passed) (prepare_reused slot same changed)

/-- The end of an allocation that has a released floor is recorded already. -/
theorem observeRecord_reads {t : GuardianTurns} (found : s.record = some record)
    (stopped : record.stopped = true) (ended : record.Ended) :
    Reads s (observeRecord record t) fun _ => True := by
  have cleaned : Reads s (cleanup record t) fun _ => True := by
    unfold cleanup
    match present : record.manifest with
    | none => exact Reads.bind Reads.check fun _ _ => Reads.pure trivial
    | some manifest =>
      have released : record.released = true := ended.resolve_left (by rw [present]; simp)
      have kept : Reads s (Host.released t.released) fun _ => True := by
        refine Reads.bind Reads.read fun current held => ?_
        obtain rfl := Option.some.inj (found.symm.trans held.1)
        rw [if_pos released]
        exact Reads.pure trivial
      exact Reads.bind Reads.check fun _ _ => Reads.bind kept fun _ _ => Reads.pure trivial
  refine Reads.bind Reads.check fun _ _ => ?_
  rw [if_pos stopped]
  exact Reads.bind cleaned fun _ _ => Reads.pure trivial

theorem reclaim_reused {boot : Except String (Option String)} {domain : Domain}
    {through completed : OperationId} {revision epoch : ℤ} {held : ReleasedRetirement}
    (found : record.releasedSlot domain = some held) (same : revision = held.revision)
    (changed : through ≠ held.requestedThrough ∨ epoch ≠ held.reportingEpoch) :
    reclaim files record boot domain through revision epoch ≠ .ok (next, completed) := by
  intro passed
  obtain ⟨_, _, _, prefixed, _⟩ := reclaim_ok passed
  obtain ⟨_, _, _, payload⟩ := (reclaimThrough_ok prefixed).2 held found
  obtain other | other := changed
  · exact other (payload same).1
  · exact other (payload same).2

theorem retireReleasedHistory_reused {o : Ownership} {request : ReleasedHistoryRequest}
    {lease : LeaseOwnership} {domain : Domain} {through : OperationId} {t : ReleasedTurns}
    (reused : Reused s (.retireReleasedHistory o request lease domain through))
    (seen : s.poisoned = false → ∀ record, s.record = some record → Reclaimed record) :
    Reads s (retireReleasedHistory files o request lease domain through t) fun _ => False := by
  obtain ⟨record, held, retirement, slot, same, changed⟩ := reused
  refine Reads.bind Reads.check fun _ _ => Reads.bind Reads.read fun current found =>
    Reads.bind Reads.check fun _ _ => ?_
  obtain rfl := Option.some.inj (found.1.symm.trans held)
  obtain ⟨stopped, ended⟩ := seen found.2 current found.1 domain (by
    rw [Option.mem_def.mp slot]; simp)
  have refused : Reads s (edit t.save.disk (reclaimed files request lease domain through t))
      fun _ => False := by
    refine Reads.bind Reads.journal fun read also => Reads.bind Reads.check fun again retained =>
      Reads.bind Reads.check fun edited passed => ?_
    obtain rfl := also.1
    obtain rfl := Option.some.inj (found.1.symm.trans (okOr_ok.mp retained))
    exact absurd (reclaimed_ok passed) (reclaim_reused slot same changed)
  exact Reads.bind (observeRecord_reads found.1 stopped ended) fun _ _ =>
    Reads.bind Reads.check fun _ _ => Reads.bind Reads.check fun _ _ =>
    Reads.bind refused fun _ impossible => impossible.elim

/-- The answer is an error, and nothing was written, told or sent. -/
def Rejected (s : Host) (result : EStateM.Result Failure Host (Option Fact)) : Prop :=
  ∃ status next, result = .error (.refused status) next ∧ next.record = s.record ∧
    next.disk = s.disk ∧ next.facts = s.facts

theorem Reads.rejected {s s' : Host} {call : HostM (Option Fact)} (reads : Reads s' call fun _ => False)
    (record : s'.record = s.record) (disk : s'.disk = s.disk) (facts : s'.facts = s.facts) :
    Rejected s (call s') := by
  have outcome := reads s' rfl
  match result : call s' with
  | .ok value next => rw [result] at outcome; exact outcome.2.elim
  | .error .crashed next => rw [result] at outcome; exact absurd rfl outcome.2
  | .error (.refused status) next =>
    rw [result] at outcome
    obtain rfl | rfl := outcome.1
    · exact ⟨status, _, rfl, record, disk, facts⟩
    · exact ⟨status, _, rfl, record, disk, facts⟩

theorem served_reused {waiting : Waiting} {t : waiting.Turns} (journaled : Journaled commands files s)
    (up : s.up = true) (reused : Reused s waiting) : Rejected s (s.served commands files waiting t) := by
  have seen : s.poisoned = false → ∀ record, s.record = some record → Reclaimed record := by
    intro calm record found
    have last := (journaled.mirror up calm).symm.trans found
    exact journaled.reclaimed record (List.mem_of_mem_head? last)
  cases waiting with
  | retireHistory o request lease barrier =>
    exact Reads.rejected (Reads.bind (retireHistory_reused reused) fun _ none => none.elim) rfl rfl rfl
  | retireReleasedHistory o request lease domain through =>
    exact Reads.rejected (Reads.bind (retireReleasedHistory_reused reused seen) fun _ none => none.elim)
      rfl rfl rfl
  | _ => exact reused.elim

/-- Floors only rise; what they cover is refused for ever; what they have closed is dropped and
stays so; no record is dropped before its end is known; a claim that is used again for something
else is refused and changes nothing. -/
theorem run_history (commands : CommandEncoding) (files : FileEncoding) (allocation : AllocationId)
    (host : HostId) (permits : Bool) (events : List Event) :
    let s := run (step commands files) (Host.new allocation host permits) events
    (s.written.Pairwise fun later earlier => Raised earlier later ∧
        ∀ domain id, earlier.Covered domain id → later.check domain id ≠ .ok () ∧
          (earlier.Closed domain id → id ∉ later.names domain)) ∧
      (∀ record ∈ s.written, Cleared record) ∧
      (s.written.IsChain fun later earlier =>
        ∀ domain id, Unresolved earlier id domain → id ∈ later.names domain) ∧
      ∀ waiting t, s.up = true → Reused s waiting → Rejected s (s.served commands files waiting t) := by
  intro s
  have journaled := (run_reached commands files allocation host permits events).journaled
  have cleared := journaled.all (P := fun r => Filed r ∧ Cleared r)
    (fun _ initial => ⟨initial.filed, initial.cleared⟩)
    fun _ _ held succeeds => ⟨(succeeds.raised held.1).2, succeeds.cleared held.1 held.2⟩
  have ordered := journaled.pairwise (R := fun earlier later => Raised earlier later ∧
      ∀ domain id, earlier.Covered domain id → id ∉ earlier.names domain → id ∉ later.names domain)
    (fun _ => Initial.filed)
    (fun r next filed succeeds => ⟨(succeeds.raised filed).2, (succeeds.raised filed).1,
      fun _ _ => succeeds.absent⟩)
    fun a b c first second => ⟨first.1.trans second.1, fun domain id covered absent =>
      second.2 domain id (first.1.covered covered) (first.2 domain id covered absent)⟩
  refine ⟨ordered.imp_of_mem fun {later earlier} _ member held => ⟨held.1, fun domain id covered =>
    ⟨fun open_ => ?_, fun closed => ?_⟩⟩, fun r member => (cleared r member).2,
    journaled.chain.imp fun _ _ succeeds _ _ pending => succeeds.unresolved pending,
    fun _ _ up reused => served_reused journaled up reused⟩
  · exact (Record.check_ok.mp open_).2 (held.1.covered covered)
  · exact held.2 domain id covered ((cleared earlier member).2 domain id closed)

end
end HudsonSandbox.Host
