import HudsonSandbox.Guest.Runner
import HudsonSandbox.Protocol.Display

/-!
# The receipts of a runner

Captures, the waiter, cancellations and new starts all write the receipts, in any order. Whatever the
order, a receipt in the registry or on disk passes the check that a new start makes of it, and what
both captures stored fits the command's limit.
-/

namespace HudsonSandbox.Guest
open Checked GuestModel History Run Stored

variable {s t : Runner} {id : OperationId} {receipt : Receipt} {task : Task} {pipe : Pipe}

/-! ### Captures -/

/-- Both captures count what they read, and share what they may store. -/
structure Task.Sound (task : Task) : Prop where
  limit : 1 ≤ task.request.outputLimit ∧ task.request.outputLimit ≤ MAX_OUTPUT
  stdout : task.stdout.result.Counted
  stderr : task.stderr.result.Counted
  budget : task.stdout.result.stored + task.stderr.result.stored + task.left ≤ task.request.outputLimit

theorem counted_zero : Output.Counted {} := ⟨le_rfl, rfl⟩

/-- A round keeps the counters together: what was cut is what was seen and not stored. -/
theorem counted_read {output : Output} (counted : output.Counted) {count keep : ℕ} (part : keep ≤ count)
    (small : output.stored + keep < 2 ^ 64 - 1) :
    Output.Counted
      { seen := min (output.seen + count) (2 ^ 64 - 1), stored := output.stored + keep
        truncated := output.truncated || decide (keep < count) } := by
  have behind := counted.stored
  constructor
  · show output.stored + keep ≤ min (output.seen + count) (2 ^ 64 - 1)
    omega
  · show (output.truncated || decide (keep < count)) =
      decide (output.stored + keep < min (output.seen + count) (2 ^ 64 - 1))
    rw [counted.truncated, ← Bool.decide_or, decide_eq_decide]
    omega

theorem Task.Sound.read (sound : task.Sound) (pipe : Pipe) (count : ℕ) (written : Bool) :
    (task.read pipe count written).Sound := by
  have limit := sound.limit
  have budget := sound.budget
  unfold MAX_OUTPUT at limit
  unfold Task.read
  dsimp only
  by_cases stored : written = true
  · rw [if_pos stored]
    cases pipe with
    | stdout =>
      refine ⟨sound.limit, counted_read sound.stdout (min_le_left _ _) ?_, sound.stderr, ?_⟩
      · omega
      · change task.stdout.result.stored + min count task.left + task.stderr.result.stored + (task.left - count) ≤
          task.request.outputLimit
        omega
    | stderr =>
      refine ⟨sound.limit, sound.stdout, counted_read sound.stderr (min_le_left _ _) ?_, ?_⟩
      · omega
      · change task.stdout.result.stored + (task.stderr.result.stored + min count task.left) + (task.left - count) ≤
          task.request.outputLimit
        omega
  · rw [if_neg stored]
    cases pipe with
    | stdout =>
      refine ⟨sound.limit, sound.stdout, sound.stderr, ?_⟩
      change task.stdout.result.stored + task.stderr.result.stored + (task.left - count) ≤ task.request.outputLimit
      omega
    | stderr =>
      refine ⟨sound.limit, sound.stdout, sound.stderr, ?_⟩
      change task.stdout.result.stored + task.stderr.result.stored + (task.left - count) ≤ task.request.outputLimit
      omega

/-- How far a task is plays no part in it. -/
theorem Task.Sound.flags (sound : task.Sound) (cancelled launched finished : Bool) :
    Task.Sound { task with cancelled, launched, finished } :=
  ⟨sound.limit, sound.stdout, sound.stderr, sound.budget⟩

/-- A capture whose counters stay leaves the task sound. -/
theorem Task.Sound.setCapture (sound : task.Sound) {capture : Capture}
    (same : capture.result = (task.capture pipe).result) : (task.setCapture pipe capture).Sound := by
  cases pipe with
  | stdout =>
    refine ⟨sound.limit, ?_, sound.stderr, ?_⟩
    · show capture.result.Counted
      rw [same]
      exact sound.stdout
    · show capture.result.stored + task.stderr.result.stored + task.left ≤ task.request.outputLimit
      rw [same]
      exact sound.budget
  | stderr =>
    refine ⟨sound.limit, sound.stdout, ?_, ?_⟩
    · show capture.result.Counted
      rw [same]
      exact sound.stderr
    · show task.stdout.result.stored + capture.result.stored + task.left ≤ task.request.outputLimit
      rw [same]
      exact sound.budget

/-! ### A receipt behind its task -/

/-- The receipt never runs ahead of the captures, and is open until the waiter is done. -/
structure Follows (task : Task) (receipt : Receipt) : Prop where
  limit : receipt.outputLimit = task.request.outputLimit
  stdout : receipt.stdout.stored ≤ task.stdout.result.stored
  stderr : receipt.stderr.stored ≤ task.stderr.result.stored
  cancelled : task.cancelled = true → receipt.cancelRequested = true
  active : task.finished = false → receipt.state = .launchIntent

theorem Follows.setCapture (follows : Follows task receipt) {capture : Capture}
    (ahead : (task.capture pipe).result.stored ≤ capture.result.stored) :
    Follows (task.setCapture pipe capture) receipt := by
  cases pipe with
  | stdout =>
    have behind := follows.stdout
    exact ⟨follows.limit, behind.trans ahead, follows.stderr, follows.cancelled, follows.active⟩
  | stderr =>
    have behind := follows.stderr
    exact ⟨follows.limit, follows.stdout, behind.trans ahead, follows.cancelled, follows.active⟩

theorem Follows.read (follows : Follows task receipt) (count : ℕ) (written : Bool) :
    Follows (task.read pipe count written) receipt := by
  have spent : Follows { task with left := task.left - count } receipt :=
    ⟨follows.limit, follows.stdout, follows.stderr, follows.cancelled, follows.active⟩
  unfold Task.read
  dsimp only
  by_cases stored : written = true
  · rw [if_pos stored]
    apply spent.setCapture
    cases pipe with
    | stdout => exact Nat.le_add_right _ _
    | stderr => exact Nat.le_add_right _ _
  · rw [if_neg stored]
    apply spent.setCapture
    cases pipe with
    | stdout => exact le_rfl
    | stderr => exact le_rfl

/-- A receipt in its place: it passes its check, and is this guest's own. -/
structure Held (context : Context) (id : OperationId) (receipt : Receipt) : Prop where
  valid : receipt.Valid
  context : receipt.context = context
  id : receipt.operationId = id

/-! ### The changes of a receipt -/

/-- What a capture has counted may be published next to what the receipt holds of the other one. -/
theorem Held.publish {context : Context} (held : Held context id receipt) (follows : Follows task receipt)
    (sound : task.Sound) (pipe : Pipe) :
    Held context id (Runner.counted receipt pipe (task.capture pipe).result) ∧
      Follows task (Runner.counted receipt pipe (task.capture pipe).result) := by
  have budget := sound.budget
  have out := follows.stdout
  have err := follows.stderr
  have limit := follows.limit
  cases pipe with
  | stdout =>
    have fits : task.stdout.result.stored + receipt.stderr.stored ≤ receipt.outputLimit := by omega
    exact ⟨⟨held.valid.count sound.stdout held.valid.stderr fits, held.context, held.id⟩,
      ⟨limit, le_rfl, err, follows.cancelled, follows.active⟩⟩
  | stderr =>
    have fits : receipt.stdout.stored + task.stderr.result.stored ≤ receipt.outputLimit := by omega
    exact ⟨⟨held.valid.count held.valid.stdout sound.stderr fits, held.context, held.id⟩,
      ⟨limit, out, le_rfl, follows.cancelled, follows.active⟩⟩

/-- What a launcher reports is an exit status. -/
theorem report_status (status : ExitStatus) {receipt : Receipt} (exited : receipt.state = .exited)
    (code : receipt.exitCode = status.report.exitCode) (signal : receipt.signal = status.report.signal) :
    receipt.Status := by
  unfold Receipt.Status
  rw [if_pos exited, code, signal]
  cases status with
  | code n =>
    refine ⟨rfl, ?_, by rintro _ ⟨⟩⟩
    rintro _ ⟨⟩
    have small := n.isLt
    omega
  | signal n =>
    refine ⟨rfl, by rintro _ ⟨⟩, ?_⟩
    rintro _ ⟨⟩
    have small := n.isLt
    omega

theorem no_status {receipt : Receipt} (other : receipt.state ≠ .exited) (code : receipt.exitCode = none)
    (signal : receipt.signal = none) : receipt.Status := by
  unfold Receipt.Status
  rw [if_neg other]
  exact ⟨code, signal⟩

/-- What `execute` may return of a sound task. -/
structure Returned (task : Task) (state : State) (report : Option ExitReport) (stdout stderr : Output) : Prop where
  ended : state ≠ .launchIntent
  status : (∃ status : ExitStatus, state = .exited ∧ report = some status.report) ∨
    (state ≠ .exited ∧ report = none)
  cancelled : state = .cancelled → task.cancelled = true
  stdout : stdout.Counted ∧ stdout.stored ≤ task.stdout.result.stored
  stderr : stderr.Counted ∧ stderr.stored ≤ task.stderr.result.stored

theorem result_returned (sound : task.Sound) {ending : Task.Ending} (ends : task.Ends ending) {state : State}
    {report : Option ExitReport} {stdout stderr : Output}
    (result : task.result ending = .ok (state, report, stdout, stderr)) :
    Returned task state report stdout stderr := by
  have nothing : Output.Counted {} ∧ (0 ≤ task.stdout.result.stored ∧ 0 ≤ task.stderr.result.stored) :=
    ⟨counted_zero, Nat.zero_le _, Nat.zero_le _⟩
  cases ending with
  | cancelledEarly =>
    cases result
    exact ⟨by decide, .inr ⟨by decide, rfl⟩, fun _ => ends.2, ⟨nothing.1, nothing.2.1⟩, ⟨nothing.1, nothing.2.2⟩⟩
  | expiredEarly =>
    cases result
    exact ⟨by decide, .inr ⟨by decide, rfl⟩, (by rintro ⟨⟩), ⟨nothing.1, nothing.2.1⟩, ⟨nothing.1, nothing.2.2⟩⟩
  | failed => cases result
  | cancelled =>
    cases result
    exact ⟨by decide, .inr ⟨by decide, rfl⟩, fun _ => ends.2.2, ⟨sound.stdout, le_rfl⟩, ⟨sound.stderr, le_rfl⟩⟩
  | expired =>
    cases result
    exact ⟨by decide, .inr ⟨by decide, rfl⟩, (by rintro ⟨⟩), ⟨sound.stdout, le_rfl⟩, ⟨sound.stderr, le_rfl⟩⟩
  | lost =>
    cases result
    exact ⟨by decide, .inr ⟨by decide, rfl⟩, (by rintro ⟨⟩), ⟨sound.stdout, le_rfl⟩, ⟨sound.stderr, le_rfl⟩⟩
  | exited status =>
    obtain ⟨_, result⟩ := seq_ok.mp result
    cases result
    exact ⟨by decide, .inl ⟨status, rfl, rfl⟩, (by rintro ⟨⟩), ⟨sound.stdout, le_rfl⟩, ⟨sound.stderr, le_rfl⟩⟩

/-- The waiter's receipt is valid whatever it was told, because it was open. -/
theorem Held.concluded {context : Context} (held : Held context id receipt) (follows : Follows task receipt)
    (sound : task.Sound) (running : task.finished = false) {ending : Task.Ending} (ends : task.Ends ending)
    (cleaned : Bool) :
    Held context id (Runner.concluded receipt cleaned (task.result ending)) ∧
      Follows { task with finished := true } (Runner.concluded receipt cleaned (task.result ending)) := by
  have active := follows.active running
  have empty : receipt.exitCode = none ∧ receipt.signal = none := by
    have status := held.valid.status
    unfold Receipt.Status at status
    rw [if_neg (by rw [active]; decide)] at status
    exact status
  -- without a result the counters stay, and the state says that nothing is known
  have uncertain : Held context id
        { receipt with
          cleanupConfirmed := cleaned, state := .unknown, reason := some "execution_or_cleanup_unconfirmed" } ∧
      Follows { task with finished := true }
        { receipt with
          cleanupConfirmed := cleaned, state := .unknown, reason := some "execution_or_cleanup_unconfirmed" } := by
    refine ⟨⟨?_, held.context, held.id⟩,
      ⟨follows.limit, follows.stdout, follows.stderr, follows.cancelled, by rintro ⟨⟩⟩⟩
    have valid := @Receipt.Valid.uncertain receipt held.valid cleaned "execution_or_cleanup_unconfirmed" (by decide)
    exact { valid with status := no_status (by rintro ⟨⟩) empty.1 empty.2 }
  cases returned : task.result ending with
  | error e => exact uncertain
  | ok result =>
    obtain ⟨state, report, stdout, stderr⟩ := result
    have returned := result_returned sound ends returned
    unfold Runner.concluded
    dsimp only
    by_cases clean : cleaned = true
    · rw [if_pos clean]
      obtain ⟨out, outBehind⟩ := returned.stdout
      obtain ⟨err, errBehind⟩ := returned.stderr
      have budget := sound.budget
      have limit := follows.limit
      have fits : stdout.stored + stderr.stored ≤ receipt.outputLimit := by omega
      have counted := held.valid.count out err fits
      refine ⟨⟨?_, held.context, held.id⟩, ⟨limit, outBehind, errBehind, follows.cancelled, by rintro ⟨⟩⟩⟩
      refine { counted with status := ?_, active := ?_, ended := ?_, cancelled := ?_ }
      · obtain ⟨status, exited, rfl⟩ | ⟨other, rfl⟩ := returned.status
        · exact report_status status exited rfl rfl
        · exact no_status other rfl rfl
      · intro launched
        exact absurd launched returned.ended
      · intro _
        rfl
      · intro cancelled
        exact follows.cancelled (returned.cancelled cancelled)
    · rw [if_neg clean]
      exact uncertain

theorem Held.unconfirmed {context : Context} (held : Held context id receipt) :
    Held context id (Runner.unconfirmed receipt) :=
  ⟨held.valid.uncertain (by decide), held.context, held.id⟩

theorem Held.restarted {context : Context} (held : Held context id receipt) :
    Held context id (Runner.restarted receipt) :=
  ⟨held.valid.uncertain (by decide), held.context, held.id⟩

/-! ### The invariant -/

variable {c : Context} {u : Bool}

/-- Every receipt stands in its place, on disk and in the registry, and behind its task. An identity
that was spawned stays known. -/
structure Inv (c : Context) (u : Bool) (s : Runner) : Prop where
  context : s.context = c
  up : s.up = u
  registry : ∀ id r, s.registry.receipts.lookup id = some r → Held c id r
  disk : ∀ id file, s.disk.lookup id = some file → file.Always fun r => ∀ receipt ∈ r, Held c id receipt
  tasks : ∀ id task, s.tasks.lookup id = some task → task.Sound
  follows : ∀ id task r, s.tasks.lookup id = some task → s.registry.receipts.lookup id = some r → Follows task r
  known : ∀ id task, s.tasks.lookup id = some task →
    id ∈ s.registry.receipts ∨ ∃ barrier ∈ s.registry.barrier, barrier.covers id

/-- Flags and the active command play no part in it. -/
theorem Inv.same (inv : Inv c u s) (context : t.context = s.context) (up : t.up = s.up) (disk : t.disk = s.disk)
    (tasks : t.tasks = s.tasks) (receipts : t.registry.receipts = s.registry.receipts)
    (barrier : t.registry.barrier = s.registry.barrier) : Inv c u t := by
  constructor
  · exact context.trans inv.context
  · exact up.trans inv.up
  · rw [receipts]
    exact inv.registry
  · rw [disk]
    exact inv.disk
  · rw [tasks]
    exact inv.tasks
  · rw [tasks, receipts]
    exact inv.follows
  · rw [tasks, receipts, barrier]
    exact inv.known

theorem Inv.here (inv : Inv c u s) : Inv c s.up s := { inv with up := rfl }

theorem Inv.writeReceipt (inv : Inv c u s) (held : Held c id receipt) (write : Write) :
    Inv c u (s.writeReceipt id receipt write) := by
  refine { inv with disk := ?_ }
  intro other file found
  obtain ⟨rfl, rfl⟩ | ⟨_, kept⟩ := Maps.lookup_insert_some found
  · have before : ((s.disk.lookup other).getD (.of none)).Always fun r => ∀ receipt ∈ r, Held c other receipt := by
      cases stored : s.disk.lookup other with
      | none => exact .of (by rintro _ ⟨⟩)
      | some file => exact inv.disk other file stored
    apply before.write
    rintro _ ⟨⟩
    exact held
  · exact inv.disk other file kept

theorem Inv.insertReceipt (inv : Inv c u s) (held : Held c id receipt)
    (follows : ∀ task, s.tasks.lookup id = some task → Follows task receipt) : Inv c u (s.insertReceipt id receipt) := by
  refine { inv with registry := ?_, follows := ?_, known := ?_ }
  · intro other r found
    obtain ⟨rfl, rfl⟩ | ⟨_, kept⟩ := Maps.lookup_insert_some found
    · exact held
    · exact inv.registry other r kept
  · intro other task r spawned found
    obtain ⟨rfl, rfl⟩ | ⟨_, kept⟩ := Maps.lookup_insert_some found
    · exact follows task spawned
    · exact inv.follows other task r spawned kept
  · intro other task spawned
    obtain here | covered := inv.known other task spawned
    · exact .inl ((AList.mem_insert _).mpr (.inr here))
    · exact .inr covered

theorem Inv.setTask (inv : Inv c u s) (sound : task.Sound)
    (follows : ∀ r, s.registry.receipts.lookup id = some r → Follows task r)
    (known : id ∈ s.registry.receipts ∨ ∃ barrier ∈ s.registry.barrier, barrier.covers id) :
    Inv c u (s.setTask id task) := by
  refine { inv with tasks := ?_, follows := ?_, known := ?_ }
  · intro other task' found
    obtain ⟨rfl, rfl⟩ | ⟨_, kept⟩ := Maps.lookup_insert_some found
    · exact sound
    · exact inv.tasks other task' kept
  · intro other task' r found held
    obtain ⟨rfl, rfl⟩ | ⟨_, kept⟩ := Maps.lookup_insert_some found
    · exact follows r held
    · exact inv.follows other task' r kept held
  · intro other task' found
    obtain ⟨rfl, rfl⟩ | ⟨_, kept⟩ := Maps.lookup_insert_some found
    · exact known
    · exact inv.known other task' kept

/-- A step of a task that leaves the receipts alone. -/
theorem Inv.moveTask (inv : Inv c u s) {next : Task} (spawned : s.tasks.lookup id = some task) (sound : next.Sound)
    (follows : ∀ r, Follows task r → Follows next r) : Inv c u (s.setTask id next) := by
  apply inv.setTask sound
  · intro r held
    exact follows r (inv.follows id task r spawned held)
  · exact inv.known id task spawned

/-- A receipt and its task that change together. -/
theorem Inv.place (inv : Inv c u s) (held : Held c id receipt) (sound : task.Sound)
    (follows : Follows task receipt) : Inv c u ((s.insertReceipt id receipt).setTask id task) := by
  refine { inv with registry := ?_, tasks := ?_, follows := ?_, known := ?_ }
  · intro other r found
    obtain ⟨rfl, rfl⟩ | ⟨_, kept⟩ := Maps.lookup_insert_some found
    · exact held
    · exact inv.registry other r kept
  · intro other task' found
    obtain ⟨rfl, rfl⟩ | ⟨_, kept⟩ := Maps.lookup_insert_some found
    · exact sound
    · exact inv.tasks other task' kept
  · intro other task' r found here
    obtain ⟨rfl, rfl⟩ | ⟨apart, kept⟩ := Maps.lookup_insert_some found
    · obtain ⟨_, rfl⟩ | ⟨apart, _⟩ := Maps.lookup_insert_some here
      · exact follows
      · exact absurd rfl apart
    · obtain ⟨same, _⟩ | ⟨_, here⟩ := Maps.lookup_insert_some here
      · exact absurd same apart
      · exact inv.follows other task' r kept here
  · intro other task' found
    obtain ⟨rfl, _⟩ | ⟨_, kept⟩ := Maps.lookup_insert_some found
    · exact .inl ((AList.mem_insert _).mpr (.inl rfl))
    · obtain here | covered := inv.known other task' kept
      · exact .inl ((AList.mem_insert _).mpr (.inr here))
      · exact .inr covered

/-! ### Requests -/

section
variable {enc : CommandEncoding}

theorem intent_held {request : Execute} (same : s.context = c) (context : c.Valid)
    (limit : 1 ≤ request.outputLimit ∧ request.outputLimit ≤ MAX_OUTPUT) :
    Held c request.operationId (s.intent enc request) := by
  refine ⟨⟨rfl, ?_, limit, counted_zero, counted_zero, Nat.zero_le _, (by rintro _ ⟨⟩), ?_, fun _ => rfl,
    (by rintro (same | same | same) <;> cases same), (by rintro ⟨⟩)⟩, same, rfl⟩
  · show s.context.Valid
    rw [same]
    exact context
  · exact no_status (by rintro ⟨⟩) rfl rfl

theorem execute_limit {request : Execute} (valid : request.validate enc = .ok ()) :
    1 ≤ request.outputLimit ∧ request.outputLimit ≤ MAX_OUTPUT := by
  unfold Execute.validate at valid
  obtain ⟨_, valid⟩ := seq_ok.mp valid
  obtain ⟨_, valid⟩ := seq_ok.mp valid
  obtain ⟨_, valid⟩ := seq_ok.mp valid
  obtain ⟨_, valid⟩ := seq_ok.mp valid
  obtain ⟨_, valid⟩ := seq_ok.mp valid
  obtain ⟨_, valid⟩ := seq_ok.mp valid
  exact ensure_ok.mp (seq_ok.mp valid).1

theorem Inv.start (inv : Inv c u s) (context : c.Valid) (request : Execute) (now : ℤ) (write : Write) :
    Inv c u (s.start enc request now write).1 := by
  unfold Runner.start
  dsimp only
  split
  · exact inv
  next passed =>
    have limit := execute_limit (seq_ok.mp passed).1
    have held := @intent_held s c enc request inv.context context limit
    split
    · exact inv
    split
    · exact inv
    · have saved := inv.writeReceipt held write
      split
      · have sound : Task.Sound { request, left := request.outputLimit } :=
          ⟨limit, counted_zero, counted_zero, Nat.le_of_eq (by simp)⟩
        have fresh : Follows { request, left := request.outputLimit } (s.intent enc request) :=
          ⟨rfl, le_rfl, le_rfl, (by rintro ⟨⟩), fun _ => rfl⟩
        have inserted := saved.place held sound fresh
        exact inserted.same rfl rfl rfl rfl rfl rfl
      · exact saved

/-- No identity is spawned twice: its captures never meet those of another command. -/
theorem start_spawns (inv : Inv c u s) {request : Execute} {now : ℤ} {write : Write} :
    (s.start enc request now write).1.tasks = s.tasks ∨ request.operationId ∉ s.tasks := by
  by_cases spawned : request.operationId ∈ s.tasks
  · left
    obtain ⟨task, found⟩ := Option.isSome_iff_exists.mp (AList.lookup_isSome.mpr spawned)
    have known := inv.known _ task found
    unfold Runner.start
    dsimp only
    split
    · rfl
    next passed =>
      have above := ensure_ok.mp (seq_ok.mp passed).2
      obtain here | ⟨barrier, held, covered⟩ := known
      · obtain ⟨receipt, found⟩ := Option.isSome_iff_exists.mp (AList.lookup_isSome.mpr here)
        rw [found]
      · exact absurd covered (above barrier held)
  · exact .inr spawned
end

/-- A cancellation is sent once the receipt says so. -/
theorem Inv.send (inv : Inv c u s) (asked : ∀ r, s.registry.receipts.lookup id = some r → r.cancelRequested = true) :
    Inv c u (s.send id) := by
  unfold Runner.send
  cases spawned : s.tasks.lookup id with
  | none => exact inv
  | some task =>
    have sent := (inv.tasks id task spawned).flags true task.launched task.finished
    refine inv.setTask sent ?_ ?_
    · intro r found
      have follows := inv.follows id task r spawned found
      exact ⟨follows.limit, follows.stdout, follows.stderr, fun _ => asked r found, follows.active⟩
    · exact inv.known id task spawned

theorem Inv.cancel (inv : Inv c u s) (id : OperationId) (write : Write) : Inv c u (s.cancel id write).1 := by
  unfold Runner.cancel
  split
  · exact inv
  next receipt found =>
    split
    · exact inv
    have held := inv.registry id receipt found
    have asked : Held c id { receipt with cancelRequested := true } :=
      ⟨held.valid.cancel, held.context, held.id⟩
    have saved := inv.writeReceipt asked write
    have behind : ∀ task, s.tasks.lookup id = some task → Follows task { receipt with cancelRequested := true } := by
      intro task spawned
      have follows := inv.follows id task receipt spawned found
      exact ⟨follows.limit, follows.stdout, follows.stderr, fun _ => rfl, follows.active⟩
    have inserted := saved.insertReceipt asked behind
    dsimp only
    split
    · split
      · exact inserted
      · split
        · apply inserted.send
          intro r here
          obtain ⟨_, rfl⟩ | ⟨apart, _⟩ := Maps.lookup_insert_some here
          · rfl
          · exact absurd rfl apart
        · exact inserted
    · exact saved

/-! ### Steps of a task -/

theorem Inv.publish (inv : Inv c u s) (spawned : s.tasks.lookup id = some task) (pipe : Pipe) :
    Inv c u (s.publish id pipe task) := by
  have sound := inv.tasks id task spawned
  unfold Runner.publish
  dsimp only
  split
  · refine inv.moveTask spawned ?_ ?_
    · exact sound.setCapture rfl
    · intro r follows
      exact follows.setCapture le_rfl
  next receipt found =>
    obtain ⟨held, behind⟩ := (inv.registry id receipt found).publish (inv.follows id task receipt spawned found) sound pipe
    have inserted := inv.insertReceipt held (by
      intro other same
      cases spawned.symm.trans same
      exact behind)
    refine inserted.moveTask spawned ?_ ?_
    · exact sound.setCapture rfl
    · intro r follows
      exact follows.setCapture le_rfl

theorem Inv.finish (inv : Inv c u s) (spawned : s.tasks.lookup id = some task) (running : task.finished = false)
    {ending : Task.Ending} (ends : task.Ends ending) (cleaned : Bool) (write : Write) :
    Inv c u (s.finish id task ending cleaned write) := by
  have sound := inv.tasks id task spawned
  have settled := sound.flags task.cancelled task.launched true
  unfold Runner.finish
  dsimp only
  split
  next missing =>
    have done : Inv c u (s.setTask id { task with finished := true }) := by
      apply inv.setTask settled
      · intro r found
        cases missing.symm.trans found
      · exact inv.known id task spawned
    exact done.same rfl rfl rfl rfl rfl rfl
  next receipt found =>
    obtain ⟨held, behind⟩ :=
      (inv.registry id receipt found).concluded (inv.follows id task receipt spawned found) sound running ends cleaned
    have unsure : Follows { task with finished := true }
        (Runner.unconfirmed (Runner.concluded receipt cleaned (task.result ending))) :=
      ⟨behind.limit, behind.stdout, behind.stderr, behind.cancelled, by rintro ⟨⟩⟩
    have written := inv.writeReceipt held write
    by_cases confirmed : write = .done
    · rw [if_pos confirmed]
      exact (written.place held settled behind).same rfl rfl rfl rfl rfl rfl
    · rw [if_neg confirmed]
      exact (written.place held.unconfirmed settled unsure).same rfl rfl rfl rfl rfl rfl

theorem Inv.taskStep (inv : Inv c u s) (spawned : s.tasks.lookup id = some task) (event : Runner.TaskEvent) :
    Inv c u (s.taskStep id task event) := by
  have sound := inv.tasks id task spawned
  cases event with
  | launch =>
    rw [Runner.taskStep]
    split
    · refine inv.moveTask spawned (sound.flags task.cancelled true task.finished) ?_
      intro r follows
      exact ⟨follows.limit, follows.stdout, follows.stderr, follows.cancelled, follows.active⟩
    · exact inv
  | read pipe count written =>
    rw [Runner.taskStep]
    split
    · refine inv.moveTask spawned (sound.read pipe count written) ?_
      intro r follows
      exact follows.read count written
    · exact inv
  | publish pipe =>
    rw [Runner.taskStep]
    split
    · exact inv.publish spawned pipe
    · exact inv
  | close pipe synced =>
    rw [Runner.taskStep]
    split
    · refine inv.moveTask spawned (sound.setCapture rfl) ?_
      intro r follows
      exact follows.setCapture le_rfl
    · exact inv
  | finish ending cleaned write =>
    rw [Runner.taskStep]
    split
    next ends => exact inv.finish spawned ends.1 ends.2 cleaned write
    · exact inv

/-! ### Retirement and new starts -/

theorem Inv.pruneHistory (inv : Inv c u s) (barrier : Barrier) (gone : OperationId → Bool) (complete : Bool) :
    Inv c u (s.pruneHistory barrier gone complete) := by
  refine { inv with disk := ?_ }
  intro id file found
  have mapped := (Maps.lookup_mapKeyed _ s.disk id).symm.trans found
  obtain ⟨before, stored, changed⟩ := Option.map_eq_some_iff.mp mapped
  have always := inv.disk id before stored
  have empty : ∀ receipt ∈ (none : Option Receipt), Held c id receipt := by rintro _ ⟨⟩
  rw [← changed]
  split
  · split
    · exact .of empty
    · split
      · exact always.write empty .unsynced
      · exact always
  · exact always

/-- A barrier that takes another's place covers what that one covered. -/
theorem covers_higher {current requested : Barrier} (higher : ¬requested.through ≤ current.through)
    (covered : current.covers id) : requested.covers id :=
  covered.trans (le_of_lt (lt_of_not_ge higher))

theorem Inv.retireHistory (inv : Inv c u s) (requested : Barrier) (turn : Runner.RetireTurn) :
    Inv c u (s.retireHistory requested turn).1 := by
  unfold Runner.retireHistory
  split
  · exact inv
  split
  · exact inv
  next newer =>
    split
    · exact inv
    dsimp only
    split
    · have higher : ∀ id, (∃ barrier ∈ s.registry.barrier, barrier.covers id) → requested.covers id := by
        rintro id ⟨current, held, covered⟩
        apply covers_higher _ covered
        rw [Option.mem_def.mp held] at newer
        intro older
        simp at newer
        exact absurd older (not_le_of_gt newer)
      have raised : Inv c u { s with
          binding := s.binding.write (some requested) turn.write
          registry := { s.registry with barrier := some requested } } := by
        refine { inv with known := ?_ }
        intro id task spawned
        obtain here | covered := inv.known id task spawned
        · exact .inl here
        · exact .inr ⟨requested, rfl, higher id covered⟩
      have pruned := raised.pruneHistory requested turn.gone turn.complete
      split
      · refine { pruned with registry := ?_, follows := ?_, known := ?_ }
        · intro id r found
          exact pruned.registry id r ((Maps.lookup_retain _).mp found).1
        · intro id task r spawned found
          exact pruned.follows id task r spawned ((Maps.lookup_retain _).mp found).1
        · intro id task spawned
          by_cases covered : requested.covers id
          · exact .inr ⟨requested, rfl, covered⟩
          · obtain here | ⟨barrier, held, other⟩ := pruned.known id task spawned
            · obtain ⟨r, found⟩ := Option.isSome_iff_exists.mp (AList.lookup_isSome.mpr here)
              have kept : (Maps.retain (fun id => ¬requested.covers id) s.registry.receipts).lookup id = some r :=
                (Maps.lookup_retain _).mpr ⟨found, by simpa using covered⟩
              have present := Option.isSome_of_mem (Option.mem_def.mpr kept)
              exact .inl (AList.lookup_isSome.mp present)
            · cases held
              exact absurd other covered
      · exact pruned.same rfl rfl rfl rfl rfl rfl
    · exact inv.same rfl rfl rfl rfl rfl rfl

theorem nothing_spawned {id : OperationId} {task : Task} : (∅ : Map Task).lookup id ≠ some task := by
  intro found
  cases found

theorem Inv.crash (inv : Inv c u s) (survives : OperationId → Bool) (bound : Bool) :
    Inv c false (s.crash survives bound) := by
  constructor
  · exact inv.context
  · rfl
  · intro id r found
    cases found
  · intro id file found
    have mapped := (Maps.lookup_mapKeyed _ s.disk id).symm.trans found
    obtain ⟨before, stored, rfl⟩ := Option.map_eq_some_iff.mp mapped
    exact (inv.disk id before stored).recover (survives id)
  · intro id task found
    exact absurd found nothing_spawned
  · intro id task r found
    exact absurd found nothing_spawned
  · intro id task found
    exact absurd found nothing_spawned

theorem load_inv {turns : OperationId → Option Write} {ids : List OperationId} (inv : Inv c u s) (idle : s.tasks = ∅) :
    Inv c u (Runner.load turns ids s).1 ∧ (Runner.load turns ids s).1.tasks = ∅ := by
  induction ids generalizing s with
  | nil => exact ⟨inv, idle⟩
  | cons id rest ih =>
    unfold Runner.load
    split
    · exact ih inv idle
    next receipt stored =>
      split
      · exact ⟨inv, idle⟩
      have alone : ∀ {s : Runner} {r : Receipt}, s.tasks = ∅ → ∀ task, s.tasks.lookup id = some task → Follows task r := by
        intro s r idle task found
        rw [idle] at found
        exact absurd found nothing_spawned
      have held : Held c id receipt := by
        obtain ⟨file, found, visible⟩ := Option.bind_eq_some_iff.mp stored
        exact (inv.disk id file found).1 receipt visible
      split
      · split
        · exact ⟨inv, idle⟩
        next write _ =>
          have saved := inv.writeReceipt held.restarted write
          dsimp only
          split
          · exact ih (saved.insertReceipt held.restarted (alone idle)) idle
          · exact ⟨saved, idle⟩
      · exact ih (inv.insertReceipt held (alone idle)) idle

theorem Inv.reopen (inv : Inv c u s) (idle : s.tasks = ∅) (turn : Runner.OpenTurn) :
    Inv c (s.reopen turn).up (s.reopen turn) ∧ (s.reopen turn).tasks = ∅ := by
  have pruned : ∀ barrier : Option Barrier,
      Inv c u (barrier.elim s fun barrier => s.pruneHistory barrier turn.gone turn.complete) ∧
        (barrier.elim s fun barrier => s.pruneHistory barrier turn.gone turn.complete).tasks = ∅ := by
    intro barrier
    cases barrier with
    | none => exact ⟨inv, idle⟩
    | some barrier => exact ⟨inv.pruneHistory barrier turn.gone turn.complete, idle⟩
  obtain ⟨pruned, still⟩ := pruned s.binding.visible
  have begun : Inv c u { s.binding.visible.elim s fun barrier => s.pruneHistory barrier turn.gone turn.complete with
      registry := .new s.binding.visible } := by
    refine { pruned with registry := ?_, follows := ?_, known := ?_ }
    · intro id r found
      cases found
    · intro id task r _ found
      cases found
    · intro id task found
      rw [still] at found
      exact absurd found nothing_spawned
  unfold Runner.reopen
  dsimp only
  split
  · exact ⟨begun.here, still⟩
  · obtain ⟨loaded, none⟩ := @load_inv _ _ _ turn.turns _ begun still
    exact ⟨{ loaded.here with up := rfl }, none⟩

/-! ### Runs -/

section
variable {enc : CommandEncoding}

theorem Inv.serve (inv : Inv c u s) (context : c.Valid) {event : Runner.Event}
    (lasts : ∀ survives bound, event ≠ .crash survives bound) : Inv c u (s.serve enc event) := by
  cases event with
  | start request now write => exact inv.start context request now write
  | cancel id write => exact inv.cancel id write
  | task id event =>
    rw [Runner.serve]
    cases spawned : s.tasks.lookup id with
    | none => exact inv
    | some task => exact inv.taskStep spawned event
  | shutdown => exact inv.same rfl rfl rfl rfl rfl rfl
  | retire requested turn => exact inv.retireHistory requested turn
  | crash survives bound => exact absurd rfl (lasts survives bound)
  | reopen turn => exact inv

/-- A runner that is down has no tasks left. -/
def Kept (c : Context) (s : Runner) : Prop := ∃ u, Inv c u s ∧ (u = false → s.tasks = ∅)

theorem step_kept (context : c.Valid) (s : Runner) (event : Runner.Event) (kept : Kept c s) :
    Kept c (s.step enc event) := by
  obtain ⟨u, inv, down⟩ := kept
  have crashed : ∀ survives bound, Kept c (s.crash survives bound) :=
    fun survives bound => ⟨false, inv.crash survives bound, fun _ => rfl⟩
  unfold Runner.step
  by_cases up : s.up = true
  · rw [if_pos up]
    have running : u = true := inv.up.symm.trans up
    by_cases crash : ∃ survives bound, event = .crash survives bound
    · obtain ⟨survives, bound, rfl⟩ := crash
      exact crashed survives bound
    · have served : Inv c u (s.serve enc event) := by
        apply inv.serve context
        rintro survives bound rfl
        exact crash ⟨survives, bound, rfl⟩
      refine ⟨u, served, ?_⟩
      intro off
      cases running.symm.trans off
  · rw [if_neg up]
    have off : u = false := by
      rw [← inv.up]
      exact Bool.eq_false_iff.mpr up
    have idle := down off
    cases event with
    | crash survives bound => exact crashed survives bound
    | reopen turn =>
      obtain ⟨opened, none⟩ := inv.reopen idle turn
      exact ⟨_, opened, fun _ => none⟩
    | start => exact ⟨u, inv, down⟩
    | cancel => exact ⟨u, inv, down⟩
    | task => exact ⟨u, inv, down⟩
    | shutdown => exact ⟨u, inv, down⟩
    | retire => exact ⟨u, inv, down⟩

theorem fresh_kept : Kept c (.fresh c) := by
  refine ⟨true, ⟨rfl, rfl, ?_, ?_, ?_, ?_, ?_⟩, by rintro ⟨⟩⟩
  · intro _ _ found
    cases found
  · intro _ _ found
    cases found
  · intro _ _ found
    cases found
  · intro _ _ _ found
    cases found
  · intro _ _ found
    cases found

/-- The kernel's identity of a boot is short enough for a receipt. -/
theorem create_context {context : Context} {boot : Uuid} {s : Runner} (created : Runner.create context boot = .ok s) :
    s = .fresh context ∧ context.Valid := by
  obtain ⟨positive, created⟩ := seq_ok.mp created
  obtain ⟨same, created⟩ := seq_ok.mp created
  have positive := ensure_ok.mp positive
  have same := ensure_ok.mp same
  have size : context.bootId.utf8ByteSize = 36 := by
    rw [same, Text.utf8ByteSize_printable boot.hyphenated_printable, boot.hyphenated_length]
  refine ⟨(pure_ok.mp created).symm, positive, ?_, by omega⟩
  intro empty
  rw [empty] at size
  cases size

/-- What the runner's own check says of a receipt, and of its place. -/
structure Reloads (context : Context) (id : OperationId) (receipt : Receipt) : Prop where
  validate : receipt.validate = .ok ()
  context : receipt.context = context
  id : receipt.operationId = id
  stored : receipt.stdout.stored + receipt.stderr.stored ≤ receipt.outputLimit

theorem Held.reloads {id : OperationId} {receipt : Receipt} (held : Held c id receipt) : Reloads c id receipt :=
  ⟨Receipt.validate_iff.mpr held.valid, held.context, held.id, held.valid.stored⟩

/-- Whatever starts, captures, cancellations, ends, retirements and new starts come in whatever order:
every receipt in the registry and every receipt that the disk holds or may fall back to passes its
check. -/
theorem receipts_reload {context : Context} {boot : Uuid} {start : Runner}
    (created : Runner.create context boot = .ok start) (events : List Runner.Event) :
    let s := run (Runner.step enc) start events
    (∀ id r, s.registry.receipts.lookup id = some r → Reloads context id r) ∧
      ∀ id file, s.disk.lookup id = some file → file.Always fun r => ∀ receipt ∈ r, Reloads context id receipt := by
  obtain ⟨rfl, valid⟩ := create_context created
  have keeps : ∀ s event, Kept context s → Kept context (Runner.step enc s event) :=
    fun s event kept => step_kept valid s event kept
  have kept : Kept context (run (Runner.step enc) (.fresh context) events) := run_invariant keeps fresh_kept
  obtain ⟨u, inv, _⟩ := kept
  intro s
  constructor
  · intro id r found
    exact (inv.registry id r found).reloads
  · intro id file found
    exact (inv.disk id file found).imp fun r held receipt present => (held receipt present).reloads
end

section ReceiptSample
open Runner

def boot : Uuid := 7
def context : Context := { allocationId := ⟨3⟩, generation := 1, bootId := String.ofList boot.hyphenated }
def encoding : CommandEncoding := { length := fun _ => 0, digest := fun _ => Vector.replicate 32 0 }

def request : Execute :=
  { operationId := ⟨5⟩, argv := ["/bin/true"], env := [], cwd := "/", deadlineUnixMs := 1000, outputLimit := 3 }

/-- The guest restarts after a capture and a cancellation. -/
def events : List Event :=
  [.start request 1 .done, .task ⟨5⟩ .launch, .task ⟨5⟩ (.read .stdout 5 true), .task ⟨5⟩ (.publish .stdout),
    .cancel ⟨5⟩ .unsynced, .crash (fun _ => true) true,
    .reopen { turns := fun _ => some .done, gone := fun _ => false, complete := true }]

theorem restarted_reloads :
    let receipts := (run (step encoding) (.fresh context) events).registry.receipts
    (receipts.lookup ⟨5⟩).map (fun r => (r.state, r.cancelRequested, r.stdout)) =
        some (.unknown, true, { seen := 5, stored := 3, truncated := true }) ∧
      ∀ r, receipts.lookup ⟨5⟩ = some r → Reloads context ⟨5⟩ r :=
  ⟨by decide +kernel, (@receipts_reload encoding context boot (.fresh context) rfl events).1 ⟨5⟩⟩

end ReceiptSample

end HudsonSandbox.Guest
