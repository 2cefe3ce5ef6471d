import HudsonSandbox.Library.Maps
import HudsonSandbox.Library.Run
import HudsonSandbox.Library.Stored
import HudsonSandbox.Protocol.History
import HudsonSandbox.Protocol.Receipts

/-!
# The guest's runner

One command runs at a time. Its two captures share a budget and publish their counters in the
receipt under the registry's lock; the waiter, a cancellation and a new start write the same receipt.
A capture that was told to stop may still take the lock once more, after the waiter is done.
-/

namespace HudsonSandbox.Guest
open Checked GuestModel History Stored

def MAX_COMMAND_MS : ℤ := 6 * 60 * 60 * 1000

abbrev Map (V : Type) := AList fun _ : OperationId => V

/-! ### The process -/

/-- How a command's process ends, as `wait` reports it. -/
inductive ExitStatus where
  | code (n : Fin 256)
  /-- Signal `n + 1`. -/
  | signal (n : Fin 64)
  deriving DecidableEq

structure ExitReport where
  version : ℕ
  exitCode : Option ℤ
  signal : Option ℤ
  deriving DecidableEq

/-- What the launcher writes for the runner to read. -/
def ExitStatus.report : ExitStatus → ExitReport
  | .code n => { version := 1, exitCode := some n, signal := none }
  | .signal n => { version := 1, exitCode := none, signal := some (n + 1) }

/-! ### Captures -/

inductive Pipe where
  | stdout | stderr
  deriving DecidableEq

/-- One stream's capture: its own counters, whether they are ahead of the receipt's, and its end. -/
structure Capture where
  result : Output := {}
  unpublished : Bool := false
  ended : Bool := false
  failed : Bool := false
  deriving DecidableEq

/-- A command that was spawned. `left` is what both captures may still store. -/
structure Task where
  request : Execute
  left : ℕ
  stdout : Capture := {}
  stderr : Capture := {}
  cancelled : Bool := false
  launched : Bool := false
  finished : Bool := false
  deriving DecidableEq

namespace Task

def capture (self : Task) : Pipe → Capture
  | .stdout => self.stdout
  | .stderr => self.stderr

def setCapture (self : Task) (pipe : Pipe) (capture : Capture) : Task :=
  match pipe with
  | .stdout => { self with stdout := capture }
  | .stderr => { self with stderr := capture }

/-- One read of a pipe: what the budget has left is written, the rest is dropped. -/
def read (self : Task) (pipe : Pipe) (count : ℕ) (written : Bool) : Task :=
  let capture := self.capture pipe
  let keep := min count self.left
  let spent := { self with left := self.left - count }
  if written = true then
    let result : Output :=
      { seen := min (capture.result.seen + count) (2 ^ 64 - 1)
        stored := capture.result.stored + keep
        truncated := capture.result.truncated || decide (keep < count) }
    spent.setCapture pipe { capture with result, unpublished := true }
  else spent.setCapture pipe { capture with failed := true }

/-- A capture reads while its pipe is open, and not before it has published. -/
def Reads (self : Task) (pipe : Pipe) : Prop :=
  self.launched = true ∧ (self.capture pipe).unpublished = false ∧ (self.capture pipe).ended = false ∧
    (self.capture pipe).failed = false

instance (self : Task) (pipe : Pipe) : Decidable (self.Reads pipe) := inferInstanceAs (Decidable (_ ∧ _))

/-- How `execute` comes back: before the launch, with an error, or with both captures complete. -/
inductive Ending where
  | cancelledEarly | expiredEarly
  | failed
  | cancelled | expired | lost
  | exited (status : ExitStatus)
  deriving DecidableEq

/-- A cancellation is seen on its channel only, and captures complete before a result does. -/
def Ends (self : Task) : Ending → Prop
  | .cancelledEarly => self.launched = false ∧ self.cancelled = true
  | .expiredEarly => self.launched = false
  | .failed => True
  | .cancelled => self.stdout.ended = true ∧ self.stderr.ended = true ∧ self.cancelled = true
  | .expired | .lost | .exited _ => self.stdout.ended = true ∧ self.stderr.ended = true

instance (self : Task) : ∀ ending, Decidable (self.Ends ending)
  | .cancelledEarly => inferInstanceAs (Decidable (_ ∧ _))
  | .expiredEarly => inferInstanceAs (Decidable (_ = _))
  | .failed => inferInstanceAs (Decidable True)
  | .cancelled => inferInstanceAs (Decidable (_ ∧ _ ∧ _))
  | .expired => inferInstanceAs (Decidable (_ ∧ _))
  | .lost => inferInstanceAs (Decidable (_ ∧ _))
  | .exited _ => inferInstanceAs (Decidable (_ ∧ _))

/-- What `execute` returns. -/
def result (self : Task) : Ending → Except String (State × Option ExitReport × Output × Output)
  | .cancelledEarly => pure (.cancelled, none, {}, {})
  | .expiredEarly => pure (.timedOut, none, {}, {})
  | .failed => throw "execution failed"
  | .cancelled => pure (.cancelled, none, self.stdout.result, self.stderr.result)
  | .expired => pure (.timedOut, none, self.stdout.result, self.stderr.result)
  | .lost => pure (.unknown, none, self.stdout.result, self.stderr.result)
  | .exited status => do
    let report := status.report
    ensure (report.version = 1 ∧ xor report.exitCode.isSome report.signal.isSome) "invalid command exit report"
    pure (.exited, some report, self.stdout.result, self.stderr.result)

end Task

/-! ### The runner -/

structure Registry where
  barrier : Option Barrier
  receipts : Map Receipt
  active : Option OperationId
  failed : Bool
  closed : Bool

/-- The registry is nothing's while the runner is down. `binding` is what the context file retires. -/
structure Runner where
  context : Context
  up : Bool
  registry : Registry
  tasks : Map Task
  disk : Map (Stored (Option Receipt))
  binding : Stored (Option Barrier)

def Registry.new (barrier : Option Barrier) : Registry :=
  { barrier, receipts := ∅, active := none, failed := false, closed := false }

namespace Runner

/-- A state directory with its context and nothing else. -/
def fresh (context : Context) : Runner :=
  { context, up := true, registry := .new none, tasks := ∅, disk := ∅, binding := .of none }

/-- `Runner::open` in an empty directory; `boot` is the kernel's identity of this boot. -/
def create (context : Context) (boot : Uuid) : Except String Runner := do
  ensure (0 < context.generation) "invalid allocation generation"
  ensure (context.bootId = String.ofList boot.hyphenated) "guest boot identity mismatch"
  pure (.fresh context)

/-- `write_json` of a receipt. -/
def writeReceipt (s : Runner) (id : OperationId) (receipt : Receipt) (write : Write) : Runner :=
  { s with disk := s.disk.insert id (((s.disk.lookup id).getD (.of none)).write (some receipt) write) }

def insertReceipt (s : Runner) (id : OperationId) (receipt : Receipt) : Runner :=
  { s with registry := { s.registry with receipts := s.registry.receipts.insert id receipt } }

def setTask (s : Runner) (id : OperationId) (task : Task) : Runner := { s with tasks := s.tasks.insert id task }

def reserved (s : Runner) : ℕ := Maps.total Receipt.outputLimit s.registry.receipts

section
variable (enc : CommandEncoding)

/-- What a new command meets once its identity is known to be new. -/
def startCheck (s : Runner) (request : Execute) (now : ℤ) : Except String Unit := do
  ensure (s.registry.closed = false) "runner is shutting down"
  ensure (s.registry.failed = false) "runner requires host recovery"
  ensure (s.registry.active = none) "another command is active"
  let remaining ← okOr (checkedSub 63 request.deadlineUnixMs now) "invalid deadline"
  ensure (0 < remaining ∧ remaining ≤ MAX_COMMAND_MS) "deadline must be in the next six hours"
  ensure (s.registry.receipts.entries.length < MAX_RECORDS) "receipt capacity exhausted"
  ensure (s.reserved + request.outputLimit ≤ MAX_RESERVED_OUTPUT) "output reservation capacity exhausted"

def intent (s : Runner) (request : Execute) : Receipt :=
  { version := 1, context := s.context, operationId := request.operationId, digest := enc.digest request
    state := .launchIntent, deadlineUnixMs := request.deadlineUnixMs, outputLimit := request.outputLimit
    cancelRequested := false, cleanupConfirmed := false, exitCode := none, signal := none
    stdout := {}, stderr := {}, reason := none }

/-- No process is spawned until its intent is synced. -/
def start (s : Runner) (request : Execute) (now : ℤ) (write : Write) : Runner × Except String Receipt :=
  let id := request.operationId
  match (do
      request.validate enc
      ensure (∀ barrier ∈ s.registry.barrier, ¬barrier.covers id) "command history retired" : Except String Unit) with
  | .error e => (s, .error e)
  | .ok () =>
    match s.registry.receipts.lookup id with
    | some existing =>
      (s, if existing.digest = enc.digest request then .ok existing else .error "operation payload conflict")
    | none =>
      match s.startCheck request now with
      | .error e => (s, .error e)
      | .ok () =>
        let receipt := s.intent enc request
        let saved := s.writeReceipt id receipt write
        if write = .done then
          let spawned := (saved.insertReceipt id receipt).setTask id { request, left := request.outputLimit }
          ({ spawned with registry := { spawned.registry with active := some id } }, .ok receipt)
        else (saved, .error "write failed")
end

/-- The active command's channel. -/
def send (s : Runner) (id : OperationId) : Runner :=
  (s.tasks.lookup id).elim s fun task => s.setTask id { task with cancelled := true }

/-- A cancellation is written before it is sent. -/
def cancel (s : Runner) (id : OperationId) (write : Write) : Runner × Except String Receipt :=
  match s.registry.receipts.lookup id with
  | none => (s, .error "unknown operation")
  | some receipt =>
    if receipt.state.terminal then (s, .ok receipt)
    else
      let receipt := { receipt with cancelRequested := true }
      let saved := s.writeReceipt id receipt write
      if write = .done then
        let saved := saved.insertReceipt id receipt
        match saved.registry.active with
        | none => (saved, .ok receipt)
        | some active =>
          if active = id then (saved.send id, .ok receipt) else (saved, .error "operation is not owned")
      else (saved, .error "write failed")

/-- The receipt with a capture's counters. -/
def counted (receipt : Receipt) (pipe : Pipe) (result : Output) : Receipt :=
  match pipe with
  | .stdout => { receipt with stdout := result }
  | .stderr => { receipt with stderr := result }

/-- The capture's last step of a round, under the lock. -/
def publish (s : Runner) (id : OperationId) (pipe : Pipe) (task : Task) : Runner :=
  let capture := task.capture pipe
  match s.registry.receipts.lookup id with
  | none => s.setTask id (task.setCapture pipe { capture with failed := true, unpublished := false })
  | some receipt =>
    (s.insertReceipt id (counted receipt pipe capture.result)).setTask id
      (task.setCapture pipe { capture with unpublished := false })

/-- The receipt as the waiter leaves it. -/
def concluded (receipt : Receipt) (cleaned : Bool) :
    Except String (State × Option ExitReport × Output × Output) → Receipt
  | .ok (state, report, stdout, stderr) =>
    if cleaned = true then
      { receipt with
        cleanupConfirmed := true, state, exitCode := report.bind ExitReport.exitCode
        signal := report.bind ExitReport.signal, stdout, stderr }
    else
      { receipt with
        cleanupConfirmed := cleaned, state := .unknown, reason := some "execution_or_cleanup_unconfirmed" }
  | .error _ =>
    { receipt with
      cleanupConfirmed := cleaned, state := .unknown, reason := some "execution_or_cleanup_unconfirmed" }

def unconfirmed (receipt : Receipt) : Receipt :=
  { receipt with
    state := .unknown, exitCode := none, signal := none, reason := some "receipt_commit_unconfirmed" }

/-- The end of `run`: the result is recorded, and uncertain when its write is. -/
def finish (s : Runner) (id : OperationId) (task : Task) (ending : Task.Ending) (cleaned : Bool) (write : Write) :
    Runner :=
  let done := s.setTask id { task with finished := true }
  match s.registry.receipts.lookup id with
  | none => { done with registry := { done.registry with failed := true } }
  | some receipt =>
    let receipt := concluded receipt cleaned (task.result ending)
    let saved := done.writeReceipt id receipt write
    let saved := saved.insertReceipt id (if write = .done then receipt else unconfirmed receipt)
    { saved with
      registry := { saved.registry with
        failed := saved.registry.failed || decide (write ≠ .done) || !cleaned
        active := none } }

/-! ### Retirement -/

def retireCheck (s : Runner) (requested : Barrier) : Except String Unit := do
  ensure (∀ id ∈ s.registry.active, ¬requested.covers id) "active command cannot be retired"
  ensure (∀ entry ∈ s.registry.receipts.entries, requested.covers entry.1 →
    entry.2.state.terminal ∧ entry.2.state ≠ .unknown ∧ entry.2.cleanupConfirmed = true)
    "unresolved command history cannot be retired"

/-- The files behind a barrier go, as far as `gone` says; the directory is synced at the end. -/
def pruneHistory (s : Runner) (barrier : Barrier) (gone : OperationId → Bool) (complete : Bool) : Runner :=
  let change := fun id (file : Stored (Option Receipt)) =>
    if barrier.covers id then
      if complete = true then .of none else if gone id = true then file.write none .unsynced else file
    else file
  { s with disk := Maps.mapKeyed change s.disk }

/-- What the retirement meets: the write of the barrier, and how far the pruning gets. -/
structure RetireTurn where
  write : Write
  gone : OperationId → Bool
  complete : Bool

def retireHistory (s : Runner) (requested : Barrier) (turn : RetireTurn) : Runner × Except String Barrier :=
  match (do
      requested.validate s.context .commands
      ensure (s.registry.failed = false ∧ s.registry.closed = false)
        "runner requires recovery or is shutting down" : Except String Unit) with
  | .error e => (s, .error e)
  | .ok () =>
    match s.registry.barrier.filter fun current => requested.through ≤ current.through with
    | some current => (s, .ok current)
    | none =>
      match s.retireCheck requested with
      | .error e => (s, .error e)
      | .ok () =>
        let bound := { s with binding := s.binding.write (some requested) turn.write }
        if turn.write = .done then
          let pruned := { bound with registry := { bound.registry with barrier := some requested } }.pruneHistory
            requested turn.gone turn.complete
          if turn.complete = true then
            let receipts := Maps.retain (fun id => ¬requested.covers id) pruned.registry.receipts
            ({ pruned with registry := { pruned.registry with receipts } }, .ok requested)
          else ({ pruned with registry := { pruned.registry with failed := true } }, .error "prune failed")
        else ({ bound with registry := { bound.registry with failed := true } }, .error "write failed")

/-! ### Opening -/

/-- The process dies, or the guest's power does; nothing that was running goes on. -/
def crash (s : Runner) (survives : OperationId → Bool) (bound : Bool) : Runner :=
  { s with
    up := false, registry := .new none, tasks := ∅
    disk := Maps.mapKeyed (fun id file => file.recover (survives id)) s.disk, binding := s.binding.recover bound }

/-- A receipt that opening cannot take as it is. -/
def Unsettled (receipt : Receipt) : Prop := ¬receipt.state.terminal ∨ receipt.cleanupConfirmed = false

instance (receipt : Receipt) : Decidable (Unsettled receipt) := inferInstanceAs (Decidable (_ ∨ _))

def restarted (receipt : Receipt) : Receipt :=
  { receipt with
    state := .unknown, cleanupConfirmed := true, exitCode := none, signal := none
    reason := some "agent_restart_after_launch_intent" }

/-- What a retained receipt has to meet to be adopted. -/
def loadCheck (s : Runner) (id : OperationId) (receipt : Receipt) : Except String Unit := do
  ensure (receipt.version = 1 ∧ receipt.context = s.context ∧ receipt.operationId = id) "invalid receipt ownership"
  receipt.validate
  ensure (s.reserved + receipt.outputLimit ≤ MAX_RESERVED_OUTPUT ∧ s.registry.receipts.entries.length < MAX_RECORDS)
    "retention capacity exceeded"

/-- The receipts of a directory, one after the other. `turns` says how the cleanup of an unsettled one
and the write after it go. -/
def load (turns : OperationId → Option Write) : List OperationId → Runner → Runner × Bool
  | [], s => (s, true)
  | id :: rest, s =>
    match (s.disk.lookup id).bind Stored.visible with
    | none => load turns rest s
    | some receipt =>
      match s.loadCheck id receipt with
      | .error _ => (s, false)
      | .ok () =>
        if Unsettled receipt then
          match turns id with
          | none => (s, false)
          | some write =>
            let saved := s.writeReceipt id (restarted receipt) write
            if write = .done then load turns rest (saved.insertReceipt id (restarted receipt)) else (saved, false)
        else load turns rest (s.insertReceipt id receipt)

structure OpenTurn where
  turns : OperationId → Option Write
  gone : OperationId → Bool
  complete : Bool

/-- `Runner::open` in a directory that has its context. -/
def reopen (s : Runner) (turn : OpenTurn) : Runner :=
  let barrier := s.binding.visible
  let pruned := barrier.elim s fun barrier => s.pruneHistory barrier turn.gone turn.complete
  let begun := { pruned with registry := .new barrier }
  if barrier.isSome = true ∧ turn.complete = false then begun
  else
    let loaded := load turn.turns begun.disk.keys begun
    { loaded.1 with up := loaded.2 }

/-! ### Steps -/

/-- A step of a command that was spawned. -/
inductive TaskEvent where
  | launch
  | read (pipe : Pipe) (count : ℕ) (written : Bool)
  | publish (pipe : Pipe)
  /-- The pipe is closed, and its file synced or not. -/
  | close (pipe : Pipe) (synced : Bool)
  | finish (ending : Task.Ending) (cleaned : Bool) (write : Write)

inductive Event where
  | start (request : Execute) (now : ℤ) (write : Write)
  | cancel (id : OperationId) (write : Write)
  | task (id : OperationId) (event : TaskEvent)
  | shutdown
  | retire (requested : Barrier) (turn : RetireTurn)
  | crash (survives : OperationId → Bool) (bound : Bool)
  | reopen (turn : OpenTurn)

/-- A cancellation that came before the launch keeps the launcher from being spawned. -/
def taskStep (s : Runner) (id : OperationId) (task : Task) : TaskEvent → Runner
  | .launch =>
    if task.finished = false ∧ task.launched = false ∧ task.cancelled = false then
      s.setTask id { task with launched := true }
    else s
  | .read pipe count written =>
    if task.Reads pipe ∧ 0 < count ∧ count ≤ 8192 then s.setTask id (task.read pipe count written) else s
  | .publish pipe => if (task.capture pipe).unpublished = true then s.publish id pipe task else s
  | .close pipe synced =>
    if task.Reads pipe then
      s.setTask id (task.setCapture pipe { task.capture pipe with ended := synced, failed := !synced })
    else s
  | .finish ending cleaned write =>
    if task.finished = false ∧ task.Ends ending then s.finish id task ending cleaned write else s

def serve (enc : CommandEncoding) (s : Runner) : Event → Runner
  | .start request now write => (s.start enc request now write).1
  | .cancel id write => (s.cancel id write).1
  | .task id event => (s.tasks.lookup id).elim s fun task => s.taskStep id task event
  | .shutdown => { s with registry := { s.registry with closed := true } }
  | .retire requested turn => (s.retireHistory requested turn).1
  | .crash survives bound => s.crash survives bound
  | .reopen _ => s

/-- A runner that is down can only be opened again. -/
def step (enc : CommandEncoding) (s : Runner) (event : Event) : Runner :=
  if s.up = true then s.serve enc event
  else
    match event with
    | .crash survives bound => s.crash survives bound
    | .reopen turn => s.reopen turn
    | _ => s

end Runner
end HudsonSandbox.Guest
