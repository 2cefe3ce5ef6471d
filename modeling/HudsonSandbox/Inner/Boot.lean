import HudsonSandbox.Inner.Retire

/-!
# Starting a host

The journal is validated against the launch authority and against what the guardians left, before
anything is written. Then three files follow one another: the journal in the new epoch, in which
every allocation is stopped, the authority in the new epoch, and the journal with the authority's
bounds.
-/

namespace HudsonSandbox.Inner
open Checked AllocationAuthority AllocationRetirement Stored Host

section
variable (config : Config) (texts : Texts)

/-! ### What is validated -/

/-- `metadata_retirement::validate_retained`: `retained` is the authority's own epoch, which may
still be the one before the journal's. -/
def Row.validateMetadata (row : Row) (checkpoint : Option Checkpoint) (authority : Option AuthorityFile)
    (runtime : Runtime) (epoch : ℤ) : Except String Unit :=
  match row.record.retirement with
  | none => ensure (row.metadataRetirement = none) "deletion lacks retirement intent"
  | some request => do
    let checkpoint ← okOr checkpoint "deletion lacks authority checkpoint"
    let file ← okOr authority "missing launch metadata"
    let bounds := { checkpoint with epoch := request.reportingEpoch }
    let _ ← file.load texts config.host bounds
    ensure (file.epoch ≤ epoch ∧ config.launchPermitsRequired = true)
      "deletion authority epoch or mode mismatch"
    let retained := { checkpoint with epoch := file.epoch }
    match row.metadataRetirement with
    -- A preparation can precede a failed fence, but adopts no completed root.
    | none => file.authorizeRetirement texts config.host retained request.intent
    | some saved =>
      if saved.removed = true then do
        let phase ← file.retirementGuard texts config.host bounds file.epoch request.intent
        ensure (phase ≠ .closed) "host record survived root forgetting"
        saved.plan.verifyRemoved texts runtime request.intent row.record.manifest
      else do
        file.authorizeDeletion texts config.host retained request.intent
        (openSession texts runtime request.intent row.record.manifest (some saved.plan)).map fun _ => ()

/-- The manifest is the row's own, and it could be admitted today. -/
def Row.manifestRetained (row : Row) : Prop :=
  row.start.isSome = row.record.manifest.isSome ∧ (∀ start ∈ row.start, Supported start) ∧
    ∀ manifest ∈ row.record.manifest, manifest.allocation = row.record.owner.allocationId ∧
      manifest.generation = row.record.owner.generation ∧
      ∀ permit ∈ manifest.launchPermit,
        permitOwned permit { row.record.owner with operationId := manifest.createOperation }

instance (row : Row) : Decidable row.manifestRetained := inferInstanceAs (Decidable (_ ∧ _ ∧ _))

/-- `metadata_retirement::receipt` confirms the cleanup: it is the plan's once there is one. -/
def Row.releaseEvidence (row : Row) (runtime : Runtime) : Prop :=
  match row.metadataRetirement with
  | some saved => saved.plan.metadata ≠ .absent
  | none => runtime.cleaned = true

instance (row : Row) (runtime : Runtime) : Decidable (row.releaseEvidence runtime) :=
  match h : row.metadataRetirement with
  | some saved => decidable_of_iff (saved.plan.metadata ≠ .absent) (by simp [Row.releaseEvidence, h])
  | none => decidable_of_iff (runtime.cleaned = true) (by simp [Row.releaseEvidence, h])

def Row.retained (row : Row) (id : AllocationId) (checkpoint : Option Checkpoint)
    (authority : Option AuthorityFile) (runtime : Runtime) (epoch : ℤ) : Except String Unit := do
  ensure (id = row.record.owner.allocationId ∧ row.record.owner.hostId = config.host ∧
    row.record.owner.supervisorEpoch < epoch) "invalid retained allocation ownership"
  ensure (row.record.released = true → row.record.stopped = true ∧ row.Created)
    "invalid release fence"
  ensure (row.record.create.isSome = row.record.manifest.isSome ∧
    (row.record.dispatched = true → row.Created)) "invalid retained launch intent"
  row.retainedRetirement epoch
  row.validateMetadata config texts checkpoint authority runtime epoch
  ensure row.manifestRetained "retained manifest identity mismatch"
  ensure (row.record.released = true → row.releaseEvidence runtime)
    "retained release lacks cleanup evidence"

def retainedAll (s : Inner) (epoch : ℤ) : List (Σ _ : AllocationId, Row) → Except String Unit
  | [] => .ok ()
  | ⟨id, row⟩ :: rest => do
    row.retained config texts id s.file.visible.launchAuthority (s.authority.map (·.visible))
      (s.seen id) epoch
    retainedAll s epoch rest

/-- `accepted`: what is retained of operations, commands, archives, uploads and histories is
valid, and other processes leave the authority's lock. -/
def opened (s : Inner) (epoch : ℤ) (accepted : Bool) : Except String Journal := do
  let journal := s.file.visible
  ensure (journal.epoch < epoch ∧ journal.records.entries.length ≤ MAX_RECORDS ∧ accepted = true)
    "host identity mismatch or epoch not advanced"
  retainedAll config texts s epoch journal.records.entries
  pure (journal.stopAll epoch)

/-- What `authority::open` finds before it writes: the bounds that the journal retained, and the
authority as it is to be. -/
def openAuthority (s : Inner) (epoch : ℤ) : Except String (Option (Checkpoint × AuthorityFile)) := do
  ensure (config.launchPermitsRequired = s.journal.launchAuthority.isSome)
    "launch authority mode changed; legacy migration is not supported"
  match s.journal.launchAuthority with
  | none => pure none
  | some retained => do
    ensure (0 < retained.epoch ∧ retained.epoch ≤ epoch) "invalid launch checkpoint"
    let file ← okOr (s.authority.map (·.visible)) "missing launch metadata"
    let ledger ← file.load texts config.host retained
    ensure (file.epoch ≤ epoch) "authority epoch exceeds configured epoch"
    let next ← if file.epoch < epoch then AuthorityFile.save texts epoch ledger else pure file
    pure (some (retained, next))

/-! ### What is written -/

/-- Save while the host is still down: a save that fails ends the start. -/
def launchStep (s : Inner) (write : Write) (next : Inner → Inner) : Inner :=
  if write = .done then next s else s

def ready (s : Inner) (floor : Checkpoint) : Inner := { s with up := true, poisoned := false, floor }

/-- The third save brings the authority's bounds to the journal. -/
def bound (s : Inner) (floor : Checkpoint) (file : AuthorityFile) (write : Write) : Inner :=
  let checkpoint : Checkpoint := { epoch := file.epoch, registeredThrough := file.ledger.through }
  let journal := { s.journal with launchAuthority := some checkpoint }
  launchStep { s with journal, file := s.file.write journal write } write fun s => s.ready floor

/-- The second save advances the authority's epoch. -/
def advanced (s : Inner) (epoch : ℤ) (second third : Write) : Inner :=
  match openAuthority config texts s epoch with
  | .error _ => s
  | .ok none => s.ready { epoch, registeredThrough := 0 }
  | .ok (some (retained, file)) =>
    let authority := s.authority.map fun old => old.sync.write file second
    launchStep { s with authority } second fun s => s.bound retained file third

def start (s : Inner) (epoch : ℤ) (accepted : Bool) (first second third : Write) : Inner :=
  if s.up = true then s
  else
    match opened config texts s epoch accepted with
    | .error _ => s
    | .ok journal =>
      launchStep { s with journal, file := s.file.write journal first } first fun s =>
        s.advanced config texts epoch second third

end
end HudsonSandbox.Inner
