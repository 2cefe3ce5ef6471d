import HudsonSandbox.Inner.State

/-!
# Creates, stops and releases of a whole host

Every step of the requests that change an allocation's lifecycle, one critical section or external
action at a time. The thread has been taken off the list and is put back at its next point, or is
done.
-/

namespace HudsonSandbox.Inner
open Checked Supervisor AllocationAuthority Stored Host
open LiveOutput hiding Status

section
variable (config : Config) (texts : Texts)

/-- `owner`: the syntax, the host, the epoch and the deadline of a claim. -/
def ownerCheck (s : Inner) (o : Ownership) (now : ℤ) : Except Status Unit := do
  ensure (0 < o.generation ∧ 0 < o.claimRevision) ⟨.invalidArgument, "invalid ownership"⟩
  ensure (o.hostId = config.host ∧ o.supervisorEpoch = s.journal.epoch)
    ⟨.failedPrecondition, "wrong host or supervisor epoch"⟩
  deadline o.claimExpiresUnixMs now

/-- `previous_allocation` checks the claim of an older epoch in the same way. -/
def previousCheck (s : Inner) (o : Ownership) (now : ℤ) : Except Status Unit := do
  ensure (0 < o.supervisorEpoch ∧ o.supervisorEpoch < s.journal.epoch)
    ⟨.failedPrecondition, "invalid recovery epochs"⟩
  ownerCheck config s { o with supervisorEpoch := s.journal.epoch } now

/-- `authorize_create` -/
def authorizeCreate (s : Inner) (o : Ownership) (request : CreateRequest) (granted : Bool) :
    Except Status Unit :=
  match s.authority with
  | none =>
    ensure (request.launchPermit = none)
      ⟨.failedPrecondition, "permit requires provisioned authority"⟩
  | some file => do
    let permit ← okOr request.launchPermit ⟨.invalidArgument, "launch permit required"⟩
    ensure (permitOwned permit o) ⟨.failedPrecondition, "launch permit ownership mismatch"⟩
    ensure (LaunchOpen s.threads ∧ granted = true) uncertain
    (file.visible.authorize texts permit).mapError fun _ => uncertain

/-- A missing row must not recreate an unregistered or forgotten allocation. -/
def registered (s : Inner) (o : Ownership) (granted : Bool) : Except Status Unit :=
  match s.authority with
  | none => .ok ()
  | some file => do
    let bounds ← okOr s.bounds uncertain
    let rejected : Status := ⟨.failedPrecondition, "registered active allocation required"⟩
    ensure (LaunchOpen s.threads ∧ granted = true) rejected
    let permit ← (file.visible.authorizeRegisteredAllocation texts config.host bounds
      o.allocationId).mapError fun _ => rejected
    ensure (permit.project = o.projectId ∧ permit.sandbox = o.sandboxId ∧
      permit.generation = o.generation)
      ⟨.failedPrecondition, "registered allocation ownership mismatch"⟩

/-- `gate`: find the row's gate, or insert the row with a new one. -/
def lookGate (s : Inner) (t : Thread) (o : Ownership) (task : Task) (turn : Turn) : Inner :=
  if s.poisoned = true then s
  else
    match s.journal.records.lookup o.allocationId with
    | some row =>
      match (do
        ensure (sameAllocation row.record.owner o) identityMismatch
        row.record.retirementCheck : Except Status Unit) with
      | .error _ => s
      | .ok () => s.resume { t with gate := row.gate } (.waiting task)
    | none =>
      match (do
        ensure (s.journal.records.entries.length < MAX_RECORDS)
          ⟨.resourceExhausted, "host receipt capacity full"⟩
        registered config texts s o turn.granted : Except Status Unit) with
      | .error _ => s
      | .ok () =>
        let row := Row.new o s.nextGate
        let journal := { s.journal with records := s.journal.records.insert o.allocationId row }
        { s with nextGate := s.nextGate + 1 }.commit journal turn.write fun s =>
          s.resume { t with gate := row.gate } (.waiting task)

/-- Only a row that is there has a gate for these requests. -/
def arriving (s : Inner) (t : Thread) (task : Task) (turn : Turn) : Inner :=
  let found := s.withRow t.allocation fun row => s.resume { t with gate := row.gate } (.waiting task)
  match task with
  | .create o _ | .inspect o _ | .other o true => lookGate config texts s t o task turn
  | .lease _ _ _ | .other _ false | .reconcile _ => found
  | .previous o =>
    s.withRow t.allocation fun row =>
      if sameAllocation row.record.owner o ∧ row.record.stopped = true then
        s.resume { t with gate := row.gate } (.waiting task)
      else s

end

def Row.fence (o : Ownership) (now : ℤ) (row : Row) : Except Status Row := do
  deadline o.claimExpiresUnixMs now
  let record ← fenced o row.record
  pure { row with record }

def Row.lease (o : Ownership) (lease : LeaseOwnership) (expires : Option ℤ) (now : ℤ) (row : Row) :
    Except Status Row := do
  deadline lease.claimExpiresUnixMs now
  let record ← leased o lease expires row.record
  pure { row with record }

/-- Another request's change, which the retirement check precedes. -/
def Row.touch (record : Option Record) (row : Row) : Except Status Row := do
  row.record.retirementCheck
  let record ← okOr record uncertain
  ensure (Unrelated row.record record) uncertain
  pure { row with record }

/-- The first section under the gate. -/
def held (s : Inner) (t : Thread) (task : Task) (turn : Turn) : Inner :=
  match task with
  | .create o request =>
    s.edit t.allocation (Row.fence o turn.now) turn.write fun row s =>
      match row.record.create with
      | some original =>
        if CreateRequest.sameInput original request o then s.resume t (.observing row.record) else s
      | none => if row.record.stopped = true then s else s.resume t (.admitting o request)
  | .inspect o stop =>
    s.edit t.allocation (Row.fence o turn.now) turn.write fun row s =>
      s.resume t (if stop = true then .stopping row.record else .observing row.record)
  | .lease o lease expires =>
    s.edit t.allocation (Row.lease o lease expires turn.now) turn.write fun row s =>
      -- A renewal that the guardian does not confirm ends the request.
      if turn.granted = true then s.resume t (.observing row.record) else s
  | .previous o =>
    s.withRow t.allocation fun row =>
      if sameAllocation row.record.owner o ∧ row.record.stopped = true then
        s.resume t (.observing row.record)
      else s
  | .reconcile record => s.resume t (.observing record)
  | .other _ _ =>
    s.edit t.allocation (Row.touch turn.record) turn.write fun _ s => s.resume t .editing

def admitting (config : Config) (s : Inner) (t : Thread) (o : Ownership) (request : CreateRequest)
    (turn : Turn) : Inner :=
  if s.poisoned = true then s
  else
    match (do
      let start ← manifestStart request turn.refusal
      s.journal.admitted config.capacity o request start) with
    | .error _ => s
    | .ok (row, journal) =>
      (s.tell (.admitted o.allocationId s.journal)).commit journal turn.write fun s =>
        s.resume t (.preparing row.record)

/-- `granted`: the guardian's directory is staged, and the claim has not run out meanwhile. -/
def preparing (s : Inner) (t : Thread) (record : Record) (turn : Turn) : Inner :=
  if turn.granted = true then s.resume t (.dispatching record) else s.resume t (.stopping record)

def dispatching (s : Inner) (t : Thread) (record : Record) (turn : Turn) : Inner :=
  s.edit t.allocation (fun row => .ok row.dispatch) turn.write fun _ s =>
    s.resume t (.spawning record)

/-- A guardian is spawned only after the dispatch is saved. -/
def spawning (s : Inner) (t : Thread) (record : Record) (turn : Turn) : Inner :=
  if turn.granted = true then (s.tell (.spawned t.allocation)).resume t .awaiting
  else s.resume t (.stopping record)

def stopping (s : Inner) (t : Thread) (record : Record) (turn : Turn) : Inner :=
  s.edit t.allocation (fun row => .ok row.stop) turn.write fun _ s =>
    s.resume t (.observing { record with stopped := true })

/-- A record that is not observed as running is observed as released only when the guardian's
receipt confirms the cleanup. -/
def observing (s : Inner) (t : Thread) (record : Record) (turn : Turn) : Inner :=
  if record.retirement ≠ none ∨ record.manifest = none then s
  else if record.stopped = false ∧ turn.running = true then s
  else if (s.seen t.allocation).cleaned = true ∧ turn.granted = true then s.resume t .releasing
  else s

/-- A release that is already recorded is not saved again. -/
def releasing (s : Inner) (t : Thread) (turn : Turn) : Inner :=
  s.withRow t.allocation fun row =>
    if row.record.released = true then s
    else s.edit t.allocation (fun row => .ok row.release) turn.write fun _ s => s

def editing (s : Inner) (t : Thread) (turn : Turn) : Inner :=
  s.edit t.allocation (Row.touch turn.record) turn.write fun _ s => s.resume t .editing

/-- `pin`: an output reader or a file worker starts on a running allocation. -/
def pin (s : Inner) (allocation : AllocationId) : Inner :=
  s.withRow allocation fun row =>
    if row.record.retirement = none ∧ row.record.stopped = false ∧ row.record.released = false ∧
        ReadersOpen s.threads row.gate then
      s.resume { allocation, gate := row.gate, launch := false, point := .reading } .reading
    else s

def reading (s : Inner) (t : Thread) (turn : Turn) : Inner :=
  match turn.reserve, turn.release with
  | some expires, _ => ((s.prune turn.now).reserveTicket t.allocation expires).resume t .reading
  | none, some index => (s.releaseTicket index).resume t .reading
  | none, none => s

end HudsonSandbox.Inner
