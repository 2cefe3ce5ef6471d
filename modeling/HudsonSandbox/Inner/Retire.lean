import HudsonSandbox.Inner.Launch

/-!
# Retiring and forgetting an allocation

The intent is saved before the root is fenced, the deletion plan before the first file goes, the
root's completion before the row leaves the journal, and the journal is synced before the root
forgets.
-/

namespace HudsonSandbox.Inner
open Checked AllocationAuthority AllocationRetirement Stored Host

section
variable (config : Config) (texts : Texts)

/-! ### Fencing -/

/-- What must hold of a retirement request before its record is looked up. -/
def freezeCheck (s : Inner) (request : AllocationRetirement.Request) (turn : Turn) : Except Status Checkpoint := do
  let file ← okOr s.authority ⟨.failedPrecondition, "registered physical retirement owner required"⟩
  ensure (request.intent.simulated = false ∧ request.intent.permit.host = config.host)
    ⟨.failedPrecondition, "registered physical retirement owner required"⟩
  deadline request.expiresUnixMs turn.now
  (request.validate request.intent s.journal.epoch 1 turn.now).mapError fun _ =>
    ⟨.failedPrecondition, "invalid retirement claim"⟩
  let bounds ← okOr s.bounds uncertain
  ensure (LaunchOpen s.threads ∧ turn.granted = true)
    ⟨.unavailable, "retirement authority busy"⟩
  (file.visible.authorizeRetirement texts config.host bounds request.intent).mapError fun _ =>
    ⟨.failedPrecondition, "retirement authority rejected"⟩
  pure bounds

/-- The row that the request freezes, which may be a new one. -/
def frozenRow (s : Inner) (request : AllocationRetirement.Request) (now : ℤ) : Except Status Row := do
  let row ← match s.journal.records.lookup request.intent.permit.allocation with
    | some row => pure row
    | none => do
      ensure (s.journal.records.entries.length < MAX_RECORDS)
        ⟨.resourceExhausted, "host receipt capacity full"⟩
      pure (Row.empty request s.nextGate)
  ensure (GateFree s.threads row.gate) ⟨.unavailable, "allocation retirement busy"⟩
  let record ← frozen request s.journal.epoch now row.record
  pure { row with record }

/-- The journal, authority and gate parts of `fence_allocation_sync`, up to the save. -/
def freeze (s : Inner) (request : AllocationRetirement.Request) (retire : Bool) (turn : Turn) : Inner :=
  if s.poisoned = true then s
  else
    match (do
      let bounds ← freezeCheck config texts s request turn
      let row ← frozenRow s request turn.now
      pure (bounds, row) : Except Status (Checkpoint × Row)) with
    | .error _ => s
    | .ok (bounds, row) =>
      let id := request.intent.permit.allocation
      let journal := { s.journal with records := s.journal.records.insert id row }
      { s with nextGate := s.nextGate + 1 }.commit journal turn.write fun s =>
        s.resume { allocation := id, gate := row.gate, launch := false, point := .editing }
          (.fencing request bounds retire)

/-- A failed fence keeps the intent, and nothing is acknowledged before a durable one. -/
def fencing (s : Inner) (t : Thread) (request : AllocationRetirement.Request) (minimum : Checkpoint) (retire : Bool)
    (turn : Turn) : Inner :=
  if LaunchFree s.threads ∧ turn.granted = true then
    s.rewrite (fun file => file.fence texts config.host minimum minimum.epoch request.intent.permit
      request.intent.retirement) turn.write fun s => s.resume t (.draining request retire)
  else s

def draining (s : Inner) (t : Thread) (request : AllocationRetirement.Request) (retire : Bool) : Inner :=
  if ReadersFree s.threads t.gate then s.resume t (.ticketing request retire) else s

def ticketing (s : Inner) (t : Thread) (request : AllocationRetirement.Request) (retire : Bool) (turn : Turn) : Inner :=
  let s := s.prune turn.now
  if s.Pending request.intent.permit.allocation then s
  else s.resume t (.acknowledging request retire)

def acknowledging (s : Inner) (t : Thread) (request : AllocationRetirement.Request) (retire : Bool) (turn : Turn) :
    Inner :=
  match deadline request.expiresUnixMs turn.now with
  | .error _ => s
  | .ok _ =>
    let s := s.tell (.fenced request)
    if retire = true then s.resume t (.regating request) else s

/-! ### Removing the metadata -/

def surveying (s : Inner) (t : Thread) (request : AllocationRetirement.Request) (turn : Turn) : Inner :=
  s.withRow t.allocation fun row =>
    let s := s.prune turn.now
    match (do
      -- A newer claim can win between the fence and this attempt.
      ensure (row.record.retirement = some request)
        ⟨.failedPrecondition, "retirement claim superseded"⟩
      ensure (ReadersFree s.threads t.gate) ⟨.unavailable, "allocation readers still active"⟩
      ensure (¬s.Pending t.allocation) ⟨.unavailable, "allocation capture tickets still active"⟩
      deadline request.expiresUnixMs turn.now
      ensure (LaunchFree s.threads ∧ turn.granted = true)
        ⟨.unavailable, "allocation metadata retirement busy"⟩
      let bounds ← okOr s.bounds uncertain
      let file ← okOr s.authority uncertain
      (file.visible.authorizeDeletion texts config.host bounds request.intent).mapError fun _ =>
        uncertain
      (openSession texts (s.seen t.allocation) request.intent row.record.manifest
        (row.metadataRetirement.map (·.plan))).mapError fun _ => uncertain :
          Except Status Plan) with
    | .error _ => s
    | .ok plan =>
      match row.metadataRetirement with
      | none => s.resume t (.planning request row plan)
      | some saved =>
        if saved.removed = true ∧ (s.seen t.allocation).directory.isSome = true then s
        else s.resume t (.unlinking request row saved)

/-- No unlink is permitted until the plan is durable outside the directory. -/
def planning (s : Inner) (t : Thread) (request : AllocationRetirement.Request) (row : Row) (plan : Plan) (turn : Turn) :
    Inner :=
  if s.poisoned = true then s
  else
    let saved : Saved := { plan, removed := false }
    let row := { row with metadataRetirement := some saved }
    let journal := { s.journal with records := s.journal.records.insert t.allocation row }
    s.commit journal turn.write fun s => s.resume t (.unlinking request row saved)

/-- One step of the loop over `remove_next`. -/
def unlinking (s : Inner) (t : Thread) (request : AllocationRetirement.Request) (row : Row) (saved : Saved)
    (turn : Turn) : Inner :=
  match (s.seen t.allocation).directory with
  | none =>
    if turn.write = .done then
      (s.syncRuntime t.allocation).resume t (.finishing request row saved)
    else s
  | some directory =>
    match removeNext saved.plan directory with
    | .error _ => s
    | .ok left =>
      let runtime := { s.seen t.allocation with directory := left }
      let removed := s.setRuntime t.allocation ((s.runtime t.allocation).write runtime turn.write)
      if turn.write = .done then removed.resume t (.unlinking request row saved) else removed

def finishing (s : Inner) (t : Thread) (request : AllocationRetirement.Request) (row : Row) (saved : Saved)
    (turn : Turn) : Inner :=
  if s.poisoned = true then s
  else
    let row := { row with metadataRetirement := some { saved with removed := true } }
    let journal := { s.journal with records := s.journal.records.insert t.allocation row }
    s.commit journal turn.write fun s =>
      match deadline request.expiresUnixMs turn.now with
      | .error _ => s
      | .ok _ => s.tell (.retired request)

/-! ### Forgetting -/

/-- `retirement::validate_retained` -/
def Row.retainedRetirement (row : Row) (epoch : ℤ) : Except String Unit :=
  match row.record.retirement with
  | none => .ok ()
  | some request => do
    request.intent.validate.mapError fun _ => "invalid retained retirement request"
    ensure (request.intent.simulated = false ∧ 0 < request.revision ∧ 0 < request.expiresUnixMs ∧
      request.intent.permit.originalEpoch ≤ request.reportingEpoch ∧
      request.reportingEpoch ≤ epoch ∧ row.record.stopped = true)
      "invalid retained retirement request"
    scope row.record request

def verifyForgetting (row : Row) (runtime : Runtime) (epoch : ℤ) (request : ForgetRequest) :
    Except String Unit := do
  ensure (row.record.retirement = some request.metadataRequest) "historical metadata claim changed"
  row.retainedRetirement epoch
  let saved ← okOr row.metadataRetirement "metadata completion missing"
  ensure (saved.removed = true) "metadata removal is incomplete"
  saved.plan.verifyRemoved texts runtime request.claim.intent row.record.manifest

/-- What must hold before the row and the root are compared. -/
def forgetCheck (s : Inner) (request : ForgetRequest) (turn : Turn) :
    Except Status RetirementPhase := do
  (request.validate s.journal.epoch turn.now).mapError fun _ =>
    ⟨.failedPrecondition, "stale forgetting claim"⟩
  ensure (config.launchPermitsRequired = true ∧ request.claim.intent.permit.host = config.host)
    ⟨.failedPrecondition, "physical registered host required"⟩
  let bounds ← okOr s.bounds uncertain
  ensure (∀ row ∈ s.journal.records.lookup request.claim.intent.permit.allocation,
    GateFree s.threads row.gate ∧ ReadersFree s.threads row.gate)
    ⟨.unavailable, "allocation forgetting busy"⟩
  ensure (¬s.Pending request.claim.intent.permit.allocation)
    ⟨.unavailable, "allocation capture tickets remain"⟩
  let file ← okOr s.authority uncertain
  ensure (LaunchFree s.threads ∧ turn.granted = true) uncertain
  let phase ← (file.visible.retirementGuard texts config.host bounds s.journal.epoch
    request.claim.intent).mapError fun _ => uncertain
  deadline request.claim.expiresUnixMs turn.now
  pure phase

/-- The root's exclusive lock and the journal mutex are held from here to the answer. -/
def forget (s : Inner) (request : ForgetRequest) (turn : Turn) : Inner :=
  if s.poisoned = true then s
  else
    let s := s.prune turn.now
    let id := request.claim.intent.permit.allocation
    match forgetCheck config texts s request turn with
    | .error _ => s
    | .ok phase =>
      let s := s.syncAuthority
      let absent := s.syncRuntime id
      match s.journal.records.lookup id with
      | some row =>
        let t : Thread := { allocation := id, gate := row.gate, launch := false, point := .editing }
        match phase, verifyForgetting texts row (s.seen id) s.journal.epoch request with
        | .fenced, .ok () => absent.resume t (.completing request)
        | .complete, .ok () => absent.resume t (.removing request)
        | _, _ => s
      | none =>
        let t : Thread := { allocation := id, gate := s.nextGate, launch := false, point := .editing }
        match phase, verifyAbsent (s.seen id) request.claim.intent with
        | .complete, .ok () => { absent with nextGate := s.nextGate + 1 }.resume t (.syncing request)
        | .closed, .ok () => absent.tell (.forgotten request .retired)
        | _, _ => s

def completing (s : Inner) (t : Thread) (request : ForgetRequest) (turn : Turn) : Inner :=
  s.rewrite (fun file => file.complete texts request.claim.intent) turn.write fun s =>
    s.resume t (.removing request)

def removing (s : Inner) (t : Thread) (request : ForgetRequest) (turn : Turn) : Inner :=
  match deadline request.claim.expiresUnixMs turn.now with
  | .error _ => s
  | .ok _ =>
    let journal := { s.journal with records := s.journal.records.erase t.allocation }
    (s.tell (.removed t.allocation)).commit journal turn.write fun s =>
      s.resume t (.syncing request)

/-- Even when the row was already absent after a crash, the journal is synced before the root's
completion proof is discarded. -/
def syncing (s : Inner) (t : Thread) (request : ForgetRequest) : Inner :=
  { s with file := s.file.sync }.resume t (.closing request)

def closing (s : Inner) (request : ForgetRequest) (turn : Turn) : Inner :=
  match deadline request.claim.expiresUnixMs turn.now with
  | .error _ => s
  | .ok _ =>
    s.rewrite (fun file => file.forget texts request.claim.intent) turn.write fun s =>
      s.tell (.forgotten request .forgotten)

/-! ### Registering permits -/

def checkpointed (s : Inner) (t : Thread) : Inner :=
  match s.authority with
  | none => s
  | some file =>
    s.resume t (.checkpointing
      { epoch := file.visible.epoch, registeredThrough := file.visible.ledger.through })

/-- An empty batch only inspects the frontier. -/
def register (issuer : Issuer) (s : Inner) (first count : ℕ) (turn : Turn) : Inner :=
  let permits := (List.range count).map fun k => issuer.permit (first + k)
  let t : Thread := { allocation := (issuer.permit first).allocation, gate := 0, launch := false,
                      point := .editing }
  if s.poisoned = true ∨ turn.granted = false then s
  else if count = 0 then
    match s.authority with
    | none => s
    | some file =>
      match file.visible.load texts config.host s.floor with
      | .error _ => s
      | .ok _ =>
        if LaunchOpen s.threads ∧ file.visible.epoch = s.journal.epoch then
          s.syncAuthority.checkpointed t
        else s
  else if LaunchFree s.threads then
    s.rewrite (fun file => file.register texts config.host s.floor s.journal.epoch permits) turn.write
      fun s => s.checkpointed t
  else s

/-- The journal and the authority advance together before the acknowledgement. -/
def checkpointing (s : Inner) (checkpoint : Checkpoint) (turn : Turn) : Inner :=
  match s.journal.launchAuthority with
  | none => s
  | some prior =>
    if checkpoint.registeredThrough < prior.registeredThrough ∨ prior = checkpoint then s
    else s.commit { s.journal with launchAuthority := some checkpoint } turn.write fun s => s

end
end HudsonSandbox.Inner
