import HudsonSandbox.Host.Changes
import HudsonSandbox.Host.Moves

/-!
# Every step is a sequence of moves

Each request is followed through its sections once, under the one invariant that the host got
here by moves. `run_moves` is what the results about runs rest on.
-/

namespace HudsonSandbox.Host
open Checked LiveOutput GuestModel Command History SupervisorFiles Supervisor Output Effect Run
  Files

section
variable {commands : CommandEncoding} {files : FileEncoding} {fences : OperationId → Prop}
  {origin : Host}
  {pre : Host → Prop} {o : Ownership} {record : Record} {disk : Disk}

/-- The host got here from `origin` by moves. -/
def Reached (commands : CommandEncoding) (files : FileEncoding) (fences : OperationId → Prop)
    (origin s : Host) : Prop :=
  Relation.ReflTransGen (Move commands files fences) origin s

theorem Reached.durable : Durable (Reached commands files fences origin) where
  poison _ before := before.tail .poison
  lost _ record before := before.tail (.lost record)
  crash _ before := before.tail .crash

theorem Live.store {s : Host} {record next : Record} (live : Live s record) :
    Live (s.store next) next :=
  ⟨live.up, live.unpoisoned, rfl⟩

/-- An edit whose every outcome is a change of the record is a move. -/
theorem edit_keeps {α : Type} {change : Record → Except Status (Record × α)}
    (up : ∀ s, pre s → s.up = true)
    (step : ∀ s record next value, pre s → Live s record → change record = .ok (next, value) →
      Change commands files fences s record next) :
    Keeps (Reached commands files fences origin) pre (edit disk change) (fun value s =>
      ∃ before record next, Reached commands files fences origin before ∧ Live before record ∧
        pre before ∧ change record = .ok (next, value) ∧ s = before.store next) := by
  refine Keeps.edit Reached.durable ?_
  intro s record next value reached met unpoisoned found passed
  have live : Live s record := ⟨up s met, unpoisoned, found⟩
  exact ⟨reached.tail (.change live (step s record next value met live passed)),
    s, record, next, reached, live, met, passed, rfl⟩

theorem update_keeps {change : Record → Except Status Record} (up : ∀ s, pre s → s.up = true)
    (step : ∀ s record next, pre s → Live s record → change record = .ok next →
      Change commands files fences s record next) :
    Keeps (Reached commands files fences origin) pre (update disk change) (fun next s =>
      Live s next ∧ ∃ before record, Reached commands files fences origin before ∧ Live before record ∧
        pre before ∧ change record = .ok next ∧ s = before.store next) := by
  refine Keeps.update Reached.durable ?_
  intro s record next reached met unpoisoned found passed
  have live : Live s record := ⟨up s met, unpoisoned, found⟩
  exact ⟨reached.tail (.change live (step s record next met live passed)), live.store,
    s, record, reached, live, met, passed, rfl⟩

theorem read_keeps (up : ∀ s, pre s → s.up = true) :
    Keeps (Reached commands files fences origin) pre (read disk)
      (fun record s => Live s record ∧ pre s) := by
  refine (Keeps.read Reached.durable).returns ?_
  rintro record s _ ⟨found, unpoisoned, met⟩
  exact ⟨⟨up s met, unpoisoned, found⟩, met⟩

theorem Live.unique {s : Host} {record other : Record} (live : Live s record)
    (again : Live s other) : other = record :=
  Option.some.inj (again.found.symm.trans live.found)

/-! ### Arrivals -/

theorem owner_keeps {Inv : Host → Prop} {ownership : Option Ownership} {now : ℤ}
    (same : ∀ s, pre s → ownership.map (·.allocationId) = some s.allocation) :
    Keeps Inv pre (owner ownership now)
      (fun o s => ownership = some o ∧ Owned s o ∧ pre s) := by
  refine Keeps.bind Keeps.get fun read => Keeps.check.returns ?_
  rintro o s _ ⟨passed, rfl, met⟩
  obtain ⟨o', given, passed⟩ := bind_ok.mp passed
  obtain ⟨positive, passed⟩ := seq_ok.mp passed
  obtain ⟨host, passed⟩ := seq_ok.mp passed
  obtain ⟨_, passed⟩ := seq_ok.mp passed
  obtain rfl := pure_ok.mp passed
  have present := okOr_ok.mp given
  have allocation := same read met
  rw [present] at allocation
  exact ⟨present, ⟨(ensure_ok.mp host).1, (ensure_ok.mp host).2, Option.some.inj allocation,
    (ensure_ok.mp positive).1, (ensure_ok.mp positive).2⟩, met⟩

theorem gate_keeps {t : Arrival} (up : ∀ s, pre s → s.up = true)
    (owned : ∀ s, pre s → Owned s o) (stable : ∀ s record, pre s → pre (s.store record)) :
    Keeps (Reached commands files fences origin) pre (gate o t) (fun _ => pre) := by
  refine Keeps.bind (Keeps.journal Reached.durable) fun s => ?_
  match same : s.record with
  | some record =>
    refine Keeps.bind Keeps.check fun _ => Keeps.check.returns ?_
    rintro _ _ _ ⟨_, _, _, _, met⟩
    exact met
  | none =>
    match t.admission with
    | some status => exact Keeps.refuse
    | none =>
      refine (Keeps.save Reached.durable ?_).returns ?_
      · rintro _ reached ⟨rfl, unpoisoned, met⟩
        exact reached.tail (.insert (up _ met) unpoisoned same (owned _ met))
      · rintro _ _ _ ⟨before, _, ⟨_, _, met⟩, rfl⟩
        exact stable before _ met

theorem commandGate_keeps {t : Arrival} (up : ∀ s, pre s → s.up = true)
    (owned : ∀ s, pre s → Owned s o) (stable : ∀ s record, pre s → pre (s.store record)) :
    Keeps (Reached commands files fences origin) pre (commandGate o t) (fun _ => pre) := by
  refine Keeps.bind (gate_keeps up owned stable) fun _ =>
    Keeps.bind (read_keeps up) fun record => Keeps.check.returns ?_
  rintro _ _ _ ⟨_, _, met⟩
  exact met

/-- The journal is asked only whether it has a record. -/
theorem present_keeps {t : Arrival} {status : Status} :
    Keeps (Reached commands files fences origin) pre
      (do let s ← journal t.check; check (okOr s.record status)) (fun _ => pre) := by
  refine Keeps.bind (Keeps.journal Reached.durable) fun s => Keeps.check.returns ?_
  rintro _ _ _ ⟨_, _, _, met⟩
  exact met

/-! ### Commands -/

theorem commandFence_keeps {t : CommandTurns} (allowed : fences o.operationId) :
    Keeps (Reached commands files fences origin) (fun s => s.up = true) (commandFence o t)
      (fun record s => Live s record ∧ CommandHeld o record ∧ o.operationId ∈ record.revisions) := by
  refine Keeps.bind (read_keeps fun _ up => up) fun record =>
    Keeps.bind Keeps.check fun _ => Keeps.bind Keeps.check fun _ =>
    Keeps.bind Keeps.check fun _ => (update_keeps (fun _ met => met.2.2.2.1.up) ?_).returns ?_
  · rintro s current next ⟨_, room, check, held, _⟩ live passed
    obtain rfl := live.unique held
    exact .fenceCommand allowed ⟨check, room⟩ passed
  · rintro next _ _ ⟨live, before, current, _, found, ⟨_, room, check, held, _⟩, passed, rfl⟩
    obtain rfl := found.unique held
    obtain ⟨_, _, _, rfl⟩ := fenced_ok passed
    exact ⟨live, ⟨check, room⟩, by simp⟩

/-- A receipt is saved over the unfinished record it was asked for. -/
theorem confirm_keeps {command : CommandRecord} {receipt : Receipt}
    (found : record.commands.lookup o.operationId = some command) (unfinished : ¬command.finished)
    (valid : command.validateReceipt o.operationId receipt = .ok ()) :
    Keeps (Reached commands files fences origin) (fun s => Live s record)
      (saveCommand o { command with receipt := some receipt } disk) (fun next s => Live s next ∧
        next.commands.lookup o.operationId = some { command with receipt := some receipt }) := by
  refine (update_keeps (fun _ live => live.up) ?_).returns ?_
  · intro s current next held live passed
    obtain rfl := live.unique held
    obtain rfl := Except.ok.inj passed
    exact .confirm found unfinished valid
  · rintro next _ _ ⟨live, _, _, _, _, _, passed, rfl⟩
    obtain rfl := Except.ok.inj passed
    exact ⟨live, AList.lookup_insert _⟩

/-- What an answer about a command says is retained. -/
def Answered (observation : CommandObservation) (s : Host) : Prop :=
  ∃ record, Live s record ∧ Backed record (.answered observation)

theorem observed_backed {command : CommandRecord} {current : Bool} {now : ℤ}
    (found : record.commands.lookup o.operationId = some command) :
    Backed record (.answered (observed o command current now)) := by
  intro started
  refine ⟨command, ?_, ?_⟩
  · cases current <;> exact found
  · cases current <;> exact started

theorem validateReceipt_started {command : CommandRecord} {id : OperationId} {receipt : Receipt}
    (valid : command.validateReceipt id receipt = .ok ()) : command.notStarted = false := by
  obtain ⟨_, valid⟩ := seq_ok.mp valid
  exact (ensure_ok.mp valid).1

theorem observeClient_unfinished {command : CommandRecord} {boot : Option String}
    {client : Context} (found : observeClient record command boot = some client) :
    ¬command.finished := by
  unfold observeClient at found
  split at found
  next live => exact live.1
  next => cases found

theorem observeCommand_keeps {command : CommandRecord} {t : CommandTurns} {seen : Record}
    (found : record.commands.lookup o.operationId = some command) :
    Keeps (Reached commands files fences origin) (fun s => Live s record) (observeCommand o seen command t)
      Answered := by
  unfold observeCommand
  match client : observeClient seen command t.boot with
  | none => exact Keeps.pure fun _ _ live => ⟨record, live, observed_backed found⟩
  | some _ =>
    refine Keeps.bind (Keeps.call Reached.durable) fun reply => ?_
    match reply with
    | none => exact Keeps.pure fun _ _ live => ⟨record, live, observed_backed found⟩
    | some receipt =>
      have unfinished := observeClient_unfinished client
      refine Keeps.bind Keeps.certain fun _ => Keeps.given (fun _ _ met => met.1) fun valid => ?_
      refine Keeps.bind ((confirm_keeps found unfinished valid).strengthen
        fun _ _ met => met.2) fun next => Keeps.pure ?_
      rintro _ _ ⟨live, saved⟩
      exact ⟨next, live, observed_backed saved⟩

theorem tombstone_keeps {digest : Digest} (held : CommandHeld o record)
    (fenced : o.operationId ∈ record.revisions) (absent : o.operationId ∉ record.commands) :
    Keeps (Reached commands files fences origin) (fun s => Live s record)
      (saveCommand o (CommandRecord.fenced digest) disk) (fun next s => Live s next ∧
        next.commands.lookup o.operationId = some (CommandRecord.fenced digest)) := by
  refine (update_keeps (fun _ live => live.up) ?_).returns ?_
  · intro s current next found live passed
    obtain rfl := live.unique found
    obtain rfl := Except.ok.inj passed
    exact .tombstone held fenced absent
  · rintro next _ _ ⟨live, _, _, _, _, _, passed, rfl⟩
    obtain rfl := Except.ok.inj passed
    exact ⟨live, AList.lookup_insert _⟩

theorem inspectOrCancel_keeps {digest : Digest} {cancel : Bool} {t : CommandTurns}
    (allowed : fences o.operationId) :
    Keeps (Reached commands files fences origin) (fun s => s.up = true) (inspectOrCancel o digest cancel t)
      Answered := by
  refine Keeps.bind (commandFence_keeps allowed) fun record => ?_
  unfold inspectFenced
  match found : record.commands.lookup o.operationId with
  | some command =>
    refine Keeps.bind Keeps.check fun _ => (observeCommand_keeps found).strengthen ?_
    exact fun _ _ met => met.2.1
  | none =>
    have absent := AList.lookup_eq_none.mp found
    refine Keeps.bind Keeps.check fun _ => Keeps.given (fun _ _ met => met.2.2) fun held => ?_
    refine Keeps.bind ((tombstone_keeps held.1 held.2 absent).strengthen
      fun _ _ met => met.2.1) fun next => Keeps.given (fun _ _ met => met.2) fun saved => ?_
    exact (observeCommand_keeps saved).strengthen fun _ _ met => met.1

theorem admissible_live {command : Execute} {t : CommandTurns} {client : Context}
    (found : executeClient record command t = some client) :
    admissible record command t.remaining ∧ ∃ manifest, record.manifest = some manifest ∧
      manifest.guestClient t.boot = some client := by
  unfold executeClient at found
  split at found
  next passed =>
    obtain ⟨manifest, present, guest⟩ := Option.bind_eq_some_iff.mp found
    exact ⟨passed, manifest, present, guest⟩
  next => cases found

/-- The intent is saved, and what is sent next is sent right after it. -/
theorem dispatch_keeps {command : Execute} {client : Context} {t : CommandTurns}
    (intends : ∀ retained, CommandRecord.pending commands command client = .ok retained →
      Intends commands o record command retained) :
    Keeps (Reached commands files fences origin) (fun s => Live s record) (dispatch commands o command client t)
      Answered := by
  refine Keeps.bind Keeps.check fun _ => Keeps.bind Keeps.certain fun retained =>
    Keeps.given (fun _ _ met => met.1) fun pending => ?_
  have intent := intends retained pending
  have started : retained.notStarted = false := by
    obtain ⟨_, _, pending⟩ := bind_ok.mp pending
    rw [← pure_ok.mp pending]
  let intended := { record with commands := record.commands.insert o.operationId retained }
  have found : intended.commands.lookup o.operationId = some retained := AList.lookup_insert _
  have answered : ∀ s now, Live s intended → Answered (retained.observation o false now) s :=
    fun s now live => ⟨intended, live, fun tombstone => by cases started.symm.trans tombstone⟩
  refine Keeps.bind (update_keeps (fun _ met => met.2.2.up) ?_) fun next => ?_
  · rintro s current next ⟨_, _, held⟩ live passed
    obtain rfl := live.unique held
    obtain rfl := Except.ok.inj passed
    exact .intend intent
  refine Keeps.bind Keeps.check fun _ => Keeps.bind
    (Keeps.modify (fun s => Live s intended) ?_) fun _ => ?_
  · rintro s _ ⟨_, live, before, current, reached, found, ⟨_, _, held⟩, passed, rfl⟩
    obtain rfl := found.unique held
    obtain rfl := Except.ok.inj passed
    rw [intent.operation]
    exact ⟨reached.tail (.send found intent), live.up, live.unpoisoned, live.found⟩
  refine Keeps.bind (Keeps.call Reached.durable) fun reply => ?_
  match reply with
  | none => exact Keeps.pure fun s _ live => answered s _ live
  | some receipt =>
    refine Keeps.bind Keeps.certain fun _ => Keeps.given (fun _ _ met => met.1) fun valid => ?_
    rw [intent.operation] at valid
    have unfinished : ¬retained.finished := by
      obtain ⟨_, _, pending⟩ := bind_ok.mp pending
      rw [← pure_ok.mp pending]
      simp [CommandRecord.finished]
    refine Keeps.bind ((confirm_keeps found unfinished valid).strengthen
      fun _ _ met => met.2) fun next => Keeps.pure ?_
    rintro s _ ⟨live, _⟩
    exact ⟨next, live, fun tombstone => by cases started.symm.trans tombstone⟩

theorem executeCommand_keeps {command : Execute} {digest : Digest} {t : CommandTurns}
    (allowed : fences o.operationId)
    (operation : command.operationId = o.operationId)
    (limit : command.outputLimit ≤ Command.MAX_OUTPUT) :
    Keeps (Reached commands files fences origin) (fun s => s.up = true)
      (executeCommand commands o command digest t) Answered := by
  refine Keeps.bind (commandFence_keeps allowed) fun record => ?_
  unfold executeFenced
  match found : record.commands.lookup o.operationId with
  | some previous =>
    refine Keeps.bind Keeps.check fun _ => (observeCommand_keeps found).strengthen ?_
    exact fun _ _ met => met.2.1
  | none =>
    have absent := AList.lookup_eq_none.mp found
    refine Keeps.bind Keeps.check fun _ => Keeps.given (fun _ _ met => met.2.2) fun held => ?_
    match guest : executeClient record command t with
    | none =>
      refine Keeps.bind ((tombstone_keeps held.1 held.2 absent).strengthen
        fun _ _ met => met.2.1) fun next => Keeps.pure ?_
      rintro s _ ⟨live, saved⟩
      exact ⟨next, live, fun _ => ⟨_, saved, rfl⟩⟩
    | some client =>
      obtain ⟨room, manifest, present, bound⟩ := admissible_live guest
      refine (dispatch_keeps fun retained pending => ?_).strengthen fun _ _ met => met.2.1
      exact ⟨held.1, held.2, absent, operation, limit, ⟨_, room⟩, manifest, _, client, present,
        bound, pending⟩

/-! ### Uploads -/

theorem saveFile_keeps {file : FileRecord} (change : ∀ s, file.validate files = .ok () →
      Change commands files fences s record
        { record with files := record.files.insert o.operationId file }) :
    Keeps (Reached commands files fences origin) (fun s => Live s record) (saveFile files o file disk)
      (fun _ s => file.validate files = .ok () ∧ ∃ before, Reached commands files fences origin before ∧
        Live before record ∧
        s = before.store { record with files := record.files.insert o.operationId file }) := by
  refine Keeps.bind Keeps.certain fun _ => Keeps.given (fun _ _ met => met.1) fun valid => ?_
  refine (update_keeps (fun _ met => met.2.up) ?_).returns ?_
  · rintro s current next ⟨_, found⟩ live passed
    obtain rfl := live.unique found
    obtain ⟨_, passed⟩ := seq_ok.mp passed
    obtain rfl := pure_ok.mp passed
    exact change s valid
  · rintro next s _ ⟨_, before, current, reached, live, ⟨_, found⟩, passed, rfl⟩
    obtain rfl := live.unique found
    obtain ⟨_, passed⟩ := seq_ok.mp passed
    obtain rfl := pure_ok.mp passed
    exact ⟨valid, before, reached, found, rfl⟩

variable {upload : Upload} {file : FileRecord}

theorem settleFile_keeps {t : FileTurns} (held : FileHeld o.operationId record file) :
    Keeps (Reached commands files fences origin) (fun s => Live s record) (settleFile files o upload file t)
      (fun _ _ => True) := by
  refine Keeps.bind (Keeps.call Reached.durable) fun reply => ?_
  match reply with
  | none => exact Keeps.pure fun _ _ _ => trivial
  | some receipt =>
    refine Keeps.bind Keeps.certain fun moved => Keeps.given (fun _ _ met => met.1) fun seen => ?_
    refine Keeps.bind ((saveFile_keeps fun _ _ => .observeFile held seen).strengthen
      fun _ _ met => met.2) fun _ => Keeps.pure fun _ _ _ => trivial

theorem ask_keeps (record : Record) {id : OperationId} {action : FileAction}
    (asked : ∀ s, Reached commands files fences origin s → pre s →
      Reached commands files fences origin (s.tell (.asked id action)))
    (live : ∀ s, pre s → Live s record) :
    Keeps (Reached commands files fences origin) pre (ask id action) (fun _ s => Live s record) := by
  refine Keeps.modify _ fun s reached met => ⟨asked s reached met, ?_⟩
  have live := live s met
  exact ⟨live.up, live.unpoisoned, live.found⟩

theorem inspectFile_keeps {t : FileTurns} (held : FileHeld o.operationId record file) :
    Keeps (Reached commands files fences origin) (fun s => Live s record)
      (inspectFile files o upload file t) (fun _ _ => True) :=
  Keeps.bind (ask_keeps record (fun _ reached live => reached.tail (.askInspect live)) fun _ live => live)
    fun _ => settleFile_keeps held

/-- An intent that is saved is sent right after the save. -/
theorem requestFile_keeps {t : FileTurns} {requested : FileRecord} {action : FileAction}
    (unfinished : ¬requested.finished)
    (change : ∀ s, requested.validate files = .ok () → Change commands files fences s record
      { record with files := record.files.insert o.operationId requested })
    (move : ∀ s, Live s record → requested.validate files = .ok () → Move commands files fences s
      ((s.store { record with files := record.files.insert o.operationId requested }).tell
        (.asked o.operationId action))) :
    Keeps (Reached commands files fences origin) (fun s => Live s record)
      (do let _ ← saveFile files o requested t.intent
          ask o.operationId action
          settleFile files o upload requested t) (fun _ _ => True) := by
  let saved := { record with files := record.files.insert o.operationId requested }
  have held : FileHeld o.operationId saved requested := ⟨AList.lookup_insert _, unfinished⟩
  refine Keeps.bind (saveFile_keeps change) fun _ =>
    Keeps.bind (ask_keeps saved ?_ ?_) fun _ => settleFile_keeps held
  · rintro _ _ ⟨valid, before, reached, live, rfl⟩
    exact reached.tail (move before live valid)
  · rintro _ ⟨_, before, _, live, rfl⟩
    exact live.store

theorem askFile_keeps {t : FileTurns} {action : FileAction} {isNew : Bool}
    (held : FileHeld o.operationId record file) :
    Keeps (Reached commands files fences origin) (fun s => Live s record)
      (askFile files o upload file action isNew t) (fun _ _ => True) := by
  cases action with
  | begin =>
    cases isNew with
    | true =>
      exact Keeps.bind (ask_keeps record (fun _ reached live => reached.tail (.askBegin live held))
        fun _ live => live) fun _ => settleFile_keeps held
    | false => exact inspectFile_keeps held
  | inspect => exact inspectFile_keeps held
  | commit =>
    refine Keeps.ite (fun met => ?_) fun _ => inspectFile_keeps held
    · obtain ⟨commit, abort, staged⟩ := met
      have unfinished : ¬({ file with commitRequested := true } : FileRecord).finished := held.unfinished
      exact requestFile_keeps unfinished
        (fun _ valid => .requestCommit held commit abort staged valid)
        fun _ live valid => .askCommit live held commit abort staged valid
  | abort =>
    refine Keeps.ite (fun abort => ?_) fun _ => inspectFile_keeps held
    · have unfinished : ¬({ file with abortRequested := true } : FileRecord).finished := held.unfinished
      exact requestFile_keeps unfinished (fun _ valid => .requestAbort held abort valid)
        fun _ live valid => .askAbort live held abort valid
  | write offset data =>
    refine Keeps.ite (fun met => ?_) fun _ => inspectFile_keeps held
    obtain ⟨commit, abort, staged⟩ := met
    refine Keeps.bind (ask_keeps record (fun _ reached live =>
      reached.tail (.askWrite offset data live held commit abort staged)) fun _ live => live)
      fun _ => Keeps.bind (Keeps.call Reached.durable) fun reply => ?_
    cases reply with
    | none => exact Keeps.pure fun _ _ _ => trivial
    | some stored => exact Keeps.pure fun _ _ _ => trivial

theorem contactFile_keeps {t : FileTurns} {action : FileAction} {client : Option Context}
    {isNew : Bool} (found : record.files.lookup o.operationId = some file) :
    Keeps (Reached commands files fences origin) (fun s => Live s record)
      (contactFile files o upload file action client isNew t) (fun _ _ => True) := by
  unfold contactFile
  by_cases finished : file.finished
  · rw [if_pos finished]
    exact Keeps.pure fun _ _ _ => trivial
  · rw [if_neg finished]
    match client with
    | none => exact Keeps.pure fun _ _ _ => trivial
    | some client =>
      refine Keeps.bind Keeps.check fun _ => Keeps.bind Keeps.check fun _ => ?_
      exact (askFile_keeps ⟨found, finished⟩).strengthen fun _ _ met => met.2.2

/-- The record an upload goes on with: the retained one, or a new one. -/
theorem fileOf_keeps {digest : Digest} {action : FileAction} {boot : Option String} :
    Keeps (Reached commands files fences origin) pre
      (fileOf files o record upload digest action (fileClient record boot)) (fun file s =>
        (record.files.lookup o.operationId = some file ∨ o.operationId ∉ record.files ∧
          newFile files upload digest action (fileClient record boot) = .ok file) ∧ pre s) := by
  unfold fileOf
  match found : record.files.lookup o.operationId with
  | some retained =>
    refine Keeps.bind Keeps.check fun _ => Keeps.pure ?_
    exact fun _ _ met => ⟨.inl rfl, met.2⟩
  | none =>
    refine Keeps.certain.returns ?_
    exact fun _ _ _ met => ⟨.inr ⟨AList.lookup_eq_none.mp found, met.1⟩, met.2⟩

theorem newFile_origin {digest : Digest} {action : FileAction} {boot : Option String}
    (made : newFile files upload digest action (fileClient record boot) = .ok file) :
    (∃ digest, file = FileRecord.fenced digest) ∨
      ∃ manifest boot client, record.manifest = some manifest ∧
        manifest.guestClient boot = some client ∧
        FileRecord.pending files upload client = .ok file := by
  unfold newFile at made
  split at made
  next client guest =>
    unfold fileClient at guest
    split at guest
    next =>
      obtain ⟨manifest, present, bound⟩ := Option.bind_eq_some_iff.mp guest
      exact .inr ⟨manifest, boot, client, present, bound, made⟩
    next => cases guest
  next => exact .inl ⟨digest, (Except.ok.inj made).symm⟩

theorem admitFile_keeps {t : FileTurns} (check : record.check .files o.operationId = .ok ⟨⟩)
    (absent : o.operationId ∉ record.files)
    (source : (∃ digest, file = FileRecord.fenced digest) ∨
      ∃ manifest boot client, record.manifest = some manifest ∧
        manifest.guestClient boot = some client ∧
        FileRecord.pending files upload client = .ok file) :
    Keeps (Reached commands files fences origin) (fun s => Live s record) (admitFile files o record file t)
      (fun next s => Live s next ∧ next.files.lookup o.operationId = some file) := by
  refine Keeps.bind Keeps.check fun _ => Keeps.bind Keeps.certain fun _ =>
    Keeps.given (fun _ _ met => met.1) fun valid => (update_keeps (fun _ met => met.2.2.up) ?_).returns ?_
  · rintro s current next ⟨_, _, found⟩ live passed
    obtain rfl := live.unique found
    obtain ⟨room, passed⟩ := seq_ok.mp passed
    obtain rfl := pure_ok.mp passed
    exact .admitFile ⟨check, ⟨t, room⟩, valid, absent, source⟩
  · rintro next _ _ ⟨live, _, current, _, _, _, passed, rfl⟩
    obtain ⟨_, passed⟩ := seq_ok.mp passed
    obtain rfl := pure_ok.mp passed
    exact ⟨live, AList.lookup_insert _⟩

/-- Another request of an admitted upload renews its revision. -/
theorem refence_keeps {m : Moment} (retained : o.operationId ∈ record.files) :
    Keeps (Reached commands files fences origin) (fun s => Live s record) (fence o m)
      (fun next s => Live s next ∧ next.files = record.files) := by
  refine Keeps.bind Keeps.check fun _ => (update_keeps (fun _ met => met.2.up) ?_).returns ?_
  · rintro s current next ⟨_, found⟩ live passed
    obtain rfl := live.unique found
    exact .fenceFile retained passed
  · rintro next _ _ ⟨live, before, current, _, held, ⟨_, found⟩, passed, rfl⟩
    obtain rfl := held.unique found
    obtain ⟨_, _, _, rfl⟩ := fenced_ok passed
    exact ⟨live, rfl⟩

theorem fileSync_keeps {digest : Digest} {action : FileAction} {t : FileTurns}
    (operation : upload.operationId = o.operationId) :
    Keeps (Reached commands files fences origin) (fun s => s.up = true)
      (fileSync files o upload digest action t) (fun _ _ => True) := by
  refine Keeps.bind (read_keeps fun _ up => up) fun record => Keeps.bind Keeps.check fun _ =>
    Keeps.given (fun _ _ met => met.1) fun check => Keeps.bind Keeps.check fun _ =>
    Keeps.bind fileOf_keeps fun file => Keeps.given (fun _ _ met => met.1) fun source => ?_
  rw [operation] at check
  refine Keeps.ite (fun retained => ?_) fun fresh => ?_
  · obtain found | ⟨absent, _⟩ := source
    · refine Keeps.bind ((refence_keeps retained).strengthen fun _ _ met => met.2.2.2.1)
        fun next => Keeps.given (fun _ _ met => met.2) fun same => ?_
      exact (contactFile_keeps (same ▸ found)).strengthen fun _ _ met => met.1
    · exact absurd retained absent
  · obtain found | ⟨absent, made⟩ := source
    · exact absurd (AList.lookup_isSome.mp (by rw [found]; rfl)) fresh
    · refine Keeps.bind ((admitFile_keeps check absent (newFile_origin made)).strengthen
        fun _ _ met => met.2.2.2.1) fun next => Keeps.given (fun _ _ met => met.2) fun saved => ?_
      exact (contactFile_keeps saved).strengthen fun _ _ met => met.1

end
end HudsonSandbox.Host
