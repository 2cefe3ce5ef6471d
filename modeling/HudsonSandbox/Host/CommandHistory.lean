import HudsonSandbox.Host.Floors
import HudsonSandbox.Library.Maps

/-!
# Retained commands over a run

However commands are started, inspected, cancelled and retired, an allocation keeps at most one
that has not finished, and a finished one stays as it is until a floor closes it.
-/

namespace HudsonSandbox.Host
open Checked LiveOutput GuestModel Command History SupervisorFiles Supervisor Output Effect Run
  Files Maps

section
variable {commands : CommandEncoding} {files : FileEncoding} {fences : OperationId → Prop}
  {s : Host} {record next : Record}

theorem size_eq {V : Type} {map : Map V} : size map = total (fun _ => 1) map := total_one.symm

theorem reserved_eq : reserved record = total (·.outputLimit) record.commands := rfl

/-- What is retained of an allocation's commands. -/
structure Bounded (record : Record) : Prop where
  single : ∀ id id' command command', record.commands.lookup id = some command →
    record.commands.lookup id' = some command' → ¬command.finished → ¬command'.finished → id = id'
  count : size record.commands ≤ MAX_COMMANDS
  output : reserved record ≤ MAX_RESERVED_OUTPUT

theorem Bounded.of_eq (bounded : Bounded record) (same : next.commands = record.commands) :
    Bounded next := by
  refine ⟨?_, ?_, ?_⟩
  · rw [same]; exact bounded.single
  · rw [same]; exact bounded.count
  · unfold reserved; rw [same]; exact bounded.output

theorem size_insert_absent {V : Type} {map : Map V} {id : OperationId} {value : V}
    (absent : id ∉ map) : size (map.insert id value) = size map + 1 := by
  rw [size_eq, size_eq, total_insert_absent _ absent, Nat.add_comm]

theorem size_replace {V : Type} {map : Map V} {id : OperationId} {old value : V}
    (found : map.lookup id = some old) : size (map.insert id value) = size map := by
  have counted := total_replace (fun _ => 1) value found
  rw [← size_eq, ← size_eq] at counted
  omega

theorem commandRoom_ok {o : Ownership} (passed : commandRoom o record = .ok ⟨⟩)
    (absent : o.operationId ∉ record.commands) : size record.commands < MAX_COMMANDS := by
  obtain ⟨_, room⟩ := seq_ok.mp passed
  exact (ensure_ok.mp room).resolve_left absent

/-- A command is added only while all others have finished, or is finished itself. -/
theorem Bounded.added {id : OperationId} {command : CommandRecord} (bounded : Bounded record)
    (saved : next.commands = record.commands.insert id command)
    (alone : command.finished ∨ ∀ entry ∈ record.commands.entries, entry.2.finished)
    (absent : id ∉ record.commands) (room : size record.commands < MAX_COMMANDS)
    (output : reserved record + command.outputLimit ≤ MAX_RESERVED_OUTPUT) : Bounded next := by
  have unfinished : ∀ id' c, next.commands.lookup id' = some c → ¬c.finished →
      ¬command.finished ∧ id' = id ∨ command.finished ∧ record.commands.lookup id' = some c := by
    intro id' c found pending
    rw [saved] at found
    by_cases same : id' = id
    · subst same
      rw [AList.lookup_insert] at found
      obtain rfl := Option.some.inj found
      exact .inl ⟨pending, rfl⟩
    · rw [AList.lookup_insert_ne same] at found
      refine .inr ⟨alone.resolve_right fun all => pending (all _ (mem_entries found)), found⟩
  refine ⟨fun id₁ id₂ c₁ c₂ found₁ found₂ pending₁ pending₂ => ?_, ?_, ?_⟩
  · obtain ⟨new, rfl⟩ | ⟨done, old₁⟩ := unfinished id₁ c₁ found₁ pending₁
    · obtain ⟨_, rfl⟩ | ⟨done, _⟩ := unfinished id₂ c₂ found₂ pending₂
      · rfl
      · exact absurd done new
    · obtain ⟨new, _⟩ | ⟨_, old₂⟩ := unfinished id₂ c₂ found₂ pending₂
      · exact absurd done new
      · exact bounded.single id₁ id₂ c₁ c₂ old₁ old₂ pending₁ pending₂
  · rw [saved, size_insert_absent absent]
    exact room
  · rw [reserved_eq] at output ⊢
    rw [saved, total_insert_absent _ absent]
    omega

theorem pending_limit {command : Execute} {client : Context} {retained : CommandRecord}
    (pending : CommandRecord.pending commands command client = .ok retained) :
    retained.outputLimit = command.outputLimit ∧ retained.notStarted = false ∧
      retained.receipt = none := by
  obtain ⟨_, _, pending⟩ := bind_ok.mp pending
  obtain rfl := pure_ok.mp pending
  exact ⟨rfl, rfl, rfl⟩

theorem CommandsChange.bounded (change : CommandsChange commands record next)
    (bounded : Bounded record) : Bounded next := by
  cases change with
  | same saved => exact bounded.of_eq saved
  | tombstone held absent saved =>
    exact bounded.added saved (.inl (.inl rfl)) absent (commandRoom_ok held.room absent) bounded.output
  | intended intends saved =>
    obtain ⟨manifest, boot, client, _, _, pending⟩ := intends.pending
    obtain ⟨now, _, _, alone, _, output⟩ := intends.admissible
    exact bounded.added saved (.inr alone) intends.absent (commandRoom_ok intends.held.room intends.absent)
      (by rw [(pending_limit pending).1]; exact output)
  | @confirmed id command receipt found unfinished valid saved =>
    have unfinished : ∀ id' c, next.commands.lookup id' = some c → ¬c.finished →
        ∃ c, record.commands.lookup id' = some c ∧ ¬c.finished := by
      intro id' c found' pending
      rw [saved] at found'
      by_cases same : id' = id
      · exact ⟨command, same ▸ found, unfinished⟩
      · rw [AList.lookup_insert_ne same] at found'
        exact ⟨c, found', pending⟩
    refine ⟨fun id₁ id₂ c₁ c₂ found₁ found₂ pending₁ pending₂ => ?_, ?_, ?_⟩
    · obtain ⟨old₁, found₁, pending₁⟩ := unfinished id₁ c₁ found₁ pending₁
      obtain ⟨old₂, found₂, pending₂⟩ := unfinished id₂ c₂ found₂ pending₂
      exact bounded.single id₁ id₂ old₁ old₂ found₁ found₂ pending₁ pending₂
    · rw [saved, size_replace found]
      exact bounded.count
    · have output := bounded.output
      have moved := total_replace (·.outputLimit) { command with receipt := some receipt } found
      rw [reserved_eq] at output ⊢
      rw [saved]
      dsimp only at moved
      omega
  | @dropped gone saved =>
    have kept : ∀ id c, next.commands.lookup id = some c → record.commands.lookup id = some c := by
      intro id c found
      rw [saved, eraseAll_lookup] at found
      split at found
      · cases found
      · exact found
    have fewer : next.commands.entries.Sublist record.commands.entries := by
      rw [saved]
      exact eraseAll_sublist
    refine ⟨fun id₁ id₂ c₁ c₂ found₁ found₂ => ?_, ?_, ?_⟩
    · exact bounded.single id₁ id₂ c₁ c₂ (kept id₁ c₁ found₁) (kept id₂ c₂ found₂)
    · exact fewer.length_le.trans bounded.count
    · exact (total_sublist (·.outputLimit) fewer).trans bounded.output

theorem Initial.bounded (initial : Initial record) : Bounded record := by
  have empty : record.commands = ∅ := by
    cases initial with
    | opened => rfl
    | fenced _ _ passed =>
      obtain ⟨_, rfl⟩ := frozen_ok passed
      rfl
  refine ⟨fun _ _ _ _ found => ?_, ?_, ?_⟩
  · rw [empty] at found
    cases found
  · rw [empty]
    exact Nat.zero_le _
  · rw [reserved_eq, empty]
    exact Nat.zero_le _

/-! ### Finished commands -/

/-- What has finished stays as it is, and is dropped only below a floor. -/
def Settled (record next : Record) : Prop :=
  ∀ id command, record.commands.lookup id = some command → command.finished →
    next.commands.lookup id = some command ∨ id ∉ next.commands ∧ next.Covered .commands id

theorem CommandsChange.settled (change : CommandsChange commands record next) :
    Settled record next := by
  intro id command found finished
  have other : ∀ {id' value}, id' ∉ record.commands →
      next.commands = record.commands.insert id' value → next.commands.lookup id = some command := by
    intro id' value absent saved
    have different : id ≠ id' := by
      rintro rfl
      exact absent (AList.lookup_isSome.mp (by rw [found]; rfl))
    rw [saved, AList.lookup_insert_ne different]
    exact found
  cases change with
  | same saved => exact .inl (saved ▸ found)
  | tombstone held absent saved => exact .inl (other absent saved)
  | intended intends saved => exact .inl (other intends.absent saved)
  | @confirmed id' command' receipt found' unfinished valid saved =>
    have different : id ≠ id' := by
      rintro rfl
      obtain rfl := Option.some.inj (found.symm.trans found')
      exact unfinished finished
    rw [saved, AList.lookup_insert_ne different]
    exact .inl found
  | @dropped gone saved closed =>
    rw [saved, eraseAll_lookup]
    by_cases member : id ∈ gone
    · refine .inr ⟨?_, (closed id member).covered⟩
      rw [mem_eraseAll]
      exact fun kept => kept.2 member
    · rw [if_neg member]
      exact .inl found

/-- Below a floor no command is added. -/
theorem CommandsChange.absent (change : CommandsChange commands record next) {id : OperationId}
    (covered : record.Covered .commands id) (absent : id ∉ record.commands) : id ∉ next.commands := by
  have other : ∀ {o : Ownership}, CommandHeld o record → id ≠ o.operationId := by
    rintro o held rfl
    exact (Record.check_ok.mp held.check).2 covered
  cases change with
  | same saved => rw [saved]; exact absent
  | tombstone held _ saved =>
    rw [saved, AList.mem_insert]
    exact not_or.mpr ⟨other held, absent⟩
  | intended intends saved =>
    rw [saved, AList.mem_insert]
    exact not_or.mpr ⟨other intends.held, absent⟩
  | @confirmed id' command' receipt found' unfinished valid saved =>
    rw [saved, AList.mem_insert]
    refine not_or.mpr ⟨?_, absent⟩
    rintro rfl
    exact absent (AList.lookup_isSome.mp (by rw [found']; rfl))
  | dropped saved =>
    rw [saved, mem_eraseAll]
    exact fun kept => absent kept.1

/-- What every later record keeps of an earlier one's commands. -/
structure KeepsCommands (record next : Record) : Prop where
  raised : Raised record next
  settled : Settled record next
  absent : ∀ id, record.Covered .commands id → id ∉ record.commands → id ∉ next.commands

theorem KeepsCommands.trans {last : Record} (first : KeepsCommands record next)
    (second : KeepsCommands next last) : KeepsCommands record last where
  raised := first.raised.trans second.raised
  settled id command found finished := by
    obtain kept | ⟨absent, covered⟩ := first.settled id command found finished
    · exact second.settled id command kept finished
    · exact .inr ⟨second.absent id covered absent, second.raised.covered covered⟩
  absent id covered absent :=
    second.absent id (first.raised.covered covered) (first.absent id covered absent)

theorem Succeeds.keepsCommands (succeeds : Succeeds commands files record next)
    (filed : Filed record) : KeepsCommands record next :=
  ⟨(succeeds.raised filed).1, succeeds.onCommands.settled, fun _ => succeeds.onCommands.absent⟩

/-- Whatever is asked of a host in whatever order, an allocation never has two unfinished commands
nor more than its bounds, and a finished command stays as it is until a floor closes it. -/
theorem run_commands (commands : CommandEncoding) (files : FileEncoding) (allocation : AllocationId)
    (host : HostId) (permits : Bool) (events : List Event) :
    let s := run (step commands files) (Host.new allocation host permits) events
    (∀ record ∈ s.written, Bounded record) ∧
      (s.written.Pairwise fun later earlier => Settled earlier later) ∧
      Journal.record? s.disk = s.written.head? ∧
      (s.up = true → s.poisoned = false → s.record = s.written.head?) := by
  intro s
  have journaled := (run_reached commands files allocation host permits events).journaled
  have bounded := journaled.all (fun _ => Initial.bounded)
    fun _ _ bounded succeeds => succeeds.onCommands.bounded bounded
  have ordered := journaled.pairwise (fun _ => Initial.filed)
    (fun _ _ filed succeeds => ⟨(succeeds.raised filed).2, succeeds.keepsCommands filed⟩)
    fun _ _ _ => KeepsCommands.trans
  exact ⟨bounded, ordered.imp KeepsCommands.settled, journaled.disk, journaled.mirror⟩

end
end HudsonSandbox.Host
