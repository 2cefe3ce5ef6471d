import HudsonSandbox.Host.CommandHistory

/-!
# A command is sent at most once

What stops an operation from being sent is on disk before anyone learns of it: the intent before
the request leaves, the tombstone before it is answered, the floor before it is acknowledged. Once
there it stays, so the next attempt meets it however the host got there.
-/

namespace HudsonSandbox.Host
open Checked LiveOutput GuestModel Command History SupervisorFiles Supervisor Output Effect Run
  Files

/-- After this the operation must not be sent. -/
def Fact.fences (id : OperationId) : Fact → Prop
  | .executed operation => operation = id
  | .answered observation =>
      observation.notStarted = true ∧ observation.ownership.operationId = id
  | .wrote record => (∃ command ∈ record.commands.lookup id, command.notStarted = true) ∨
      record.Covered .commands id
  | .retired observation => observation.completed.domain = .commands ∧ observation.completed.covers id
  | .reclaimed observation =>
      observation.request.domain = some .commands ∧ id ≤ observation.completedThrough
  | .asked _ _ => False

section
variable {commands : CommandEncoding} {files : FileEncoding} {fences : OperationId → Prop}
  {s : Host} {record next : Record}
  {id : OperationId}

/-- The record has no place for a new command under this identity. -/
def Refused (record : Record) (id : OperationId) : Prop :=
  id ∈ record.commands ∨ record.Covered .commands id

theorem CommandsChange.refused (change : CommandsChange commands record next)
    (raised : Raised record next) (refused : Refused record id) : Refused next id := by
  refine refused.elim (fun retained => ?_) fun covered => .inr (raised.covered covered)
  cases change with
  | same saved => exact .inl (saved ▸ retained)
  | tombstone _ _ saved => exact .inl (by rw [saved, AList.mem_insert]; exact .inr retained)
  | intended _ saved => exact .inl (by rw [saved, AList.mem_insert]; exact .inr retained)
  | confirmed _ _ _ saved => exact .inl (by rw [saved, AList.mem_insert]; exact .inr retained)
  | @dropped gone saved closed =>
    by_cases member : id ∈ gone
    · exact .inr (closed id member).covered
    · exact .inl (by rw [saved, mem_eraseAll]; exact ⟨retained, member⟩)

theorem wrote_refused (fenced : (Fact.wrote record).fences id) : Refused record id := by
  obtain ⟨command, found, _⟩ | covered := fenced
  · exact .inl (AList.lookup_isSome.mp (by rw [Option.mem_def.mp found]; rfl))
  · exact .inr covered

theorem backed_refused {fact : Fact} (backed : Backed record fact) (fenced : fact.fences id) :
    Refused record id := by
  cases fact with
  | wrote | executed | asked => exact backed.elim
  | answered observation =>
    obtain ⟨tombstone, rfl⟩ := fenced
    obtain ⟨command, found, _⟩ := backed tombstone
    exact .inl (AList.lookup_isSome.mp (by rw [Option.mem_def.mp found]; rfl))
  | retired observation =>
    obtain ⟨domain, covers⟩ := fenced
    obtain ⟨r, found, same, _⟩ := backed
    exact .inr (.inl ⟨r, domain ▸ found, by rw [same]; exact covers⟩)
  | reclaimed observation =>
    obtain ⟨asked, below⟩ := fenced
    obtain ⟨domain, also, r, found, same⟩ := backed
    obtain rfl := Option.some.inj (asked.symm.trans also)
    exact .inr (.inr ⟨r, found, by rw [same]; exact below⟩)

/-- What may not come later in the history than a fact that fences its operation. -/
def Fact.NotAgain (later earlier : Fact) : Prop := ∀ id, later = .executed id → ¬earlier.fences id

theorem Fact.notAgain_of_ne {later earlier : Fact} (sent : ∀ id, later ≠ .executed id) :
    Fact.NotAgain later earlier :=
  fun id same => absurd same (sent id)

theorem Acts.refused {fact : Fact} (acts : Acts commands files record next fact)
    (fenced : fact.fences id) : Refused next id := by
  cases acts with
  | send intends =>
    obtain rfl := fenced
    exact .inl (by simp)
  | commit | abort => exact fenced.elim

theorem Says.refused {fact : Fact} (known : Says record fact) (fenced : fact.fences id) :
    Refused record id := by
  cases known with
  | answer backed => exact backed_refused backed fenced
  | begin | inspect | write => exact fenced.elim

theorem Grows.refused {next : Host} (grows : Grows commands files s next)
    (journaled : Journaled commands files s)
    (remembers : Remembers (fun id fact => fact.fences id) Refused s) :
    Remembers (fun id fact => fact.fences id) Refused next := by
  refine grows.remembers remembers (fun record r id last succeeds refused => ?_)
    (fun _ _ => wrote_refused) (fun _ _ _ _ => Acts.refused) fun _ _ _ => Says.refused
  have filed := journaled.filed record (List.mem_of_mem_head? last)
  exact succeeds.onCommands.refused (succeeds.raised filed).1 refused

/-- When an intent is saved, nothing has fenced its operation. -/
theorem Intends.unfenced {o : Ownership} {command : Execute} {retained : CommandRecord}
    (intends : Intends commands o record command retained) (last : s.written.head? = some record)
    (remembers : Remembers (fun id fact => fact.fences id) Refused s) :
    ∀ fact ∈ s.facts, ¬fact.fences o.operationId := by
  intro fact member fenced
  obtain ⟨held, found, refused⟩ := remembers fact member _ fenced
  obtain rfl := Option.some.inj (last.symm.trans found)
  obtain retained | covered := refused
  · exact intends.absent retained
  · exact (Record.check_ok.mp intends.held.check).2 covered

/-- Nor does the save itself. -/
theorem Intends.unsettled {o : Ownership} {command : Execute} {retained : CommandRecord}
    (intends : Intends commands o record command retained) :
    ¬(Fact.wrote { record with
        commands := record.commands.insert o.operationId retained }).fences o.operationId := by
  rintro (⟨command, found, tombstone⟩ | covered)
  · obtain ⟨_, _, _, _, _, pending⟩ := intends.pending
    rw [AList.lookup_insert] at found
    obtain rfl := Option.some.inj found
    cases (pending_limit pending).2.1.symm.trans tombstone
  · exact (Record.check_ok.mp intends.held.check).2 covered

theorem Acts.notAgain {fact : Fact} (acts : Acts commands files record next fact)
    (last : s.written.head? = some record)
    (remembers : Remembers (fun id fact => fact.fences id) Refused s) :
    ∀ earlier ∈ .wrote next :: s.facts, Fact.NotAgain fact earlier := by
  cases acts with
  | send intends =>
    intro earlier member id same
    obtain rfl := Fact.executed.inj same
    obtain rfl | member := List.mem_cons.mp member
    · exact intends.unsettled
    · exact intends.unfenced last remembers earlier member
  | commit | abort => exact fun _ _ => Fact.notAgain_of_ne fun _ same => by cases same

theorem Grows.notAgain {next : Host} (grows : Grows commands files s next)
    (remembers : Remembers (fun id fact => fact.fences id) Refused s)
    (ordered : s.facts.Pairwise Fact.NotAgain) : next.facts.Pairwise Fact.NotAgain := by
  have wrote : ∀ r, (.wrote r :: s.facts).Pairwise Fact.NotAgain := fun r =>
    ordered.cons fun _ _ => Fact.notAgain_of_ne fun _ same => by cases same
  cases grows with
  | quiet facts => rw [facts]; exact ordered
  | first facts => rw [facts]; exact wrote _
  | saved facts => rw [facts]; exact wrote _
  | acted facts last acts => rw [facts]; exact (wrote _).cons (acts.notAgain last remembers)
  | @told record fact facts last known =>
    rw [facts]
    refine ordered.cons fun _ _ => Fact.notAgain_of_ne fun id same => ?_
    subst same
    cases known with
    | answer backed => exact backed.elim

theorem Reached.once {allocation : AllocationId} {host : HostId} {permits : Bool}
    (reached : Reached commands files fences (Host.new allocation host permits) s) :
    Remembers (fun id fact => fact.fences id) Refused s ∧ s.facts.Pairwise Fact.NotAgain := by
  induction reached with
  | refl => exact ⟨fun _ none => (by cases none), List.Pairwise.nil⟩
  | tail reached move ih =>
    have journaled := Reached.journaled reached
    have grows := move.grows journaled
    exact ⟨grows.refused journaled ih.1, grows.notAgain ih.1 ih.2⟩

/-- No command is sent a second time, nor after its absence, its tombstone or a floor that covers
it was recorded or answered. -/
theorem run_at_most_once (commands : CommandEncoding) (files : FileEncoding)
    (allocation : AllocationId) (host : HostId) (permits : Bool) (events : List Event) :
    (run (step commands files) (Host.new allocation host permits) events).facts.Pairwise
      fun later earlier => ∀ id, later = .executed id → ¬earlier.fences id :=
  (run_reached commands files allocation host permits events).once.2

end
end HudsonSandbox.Host
