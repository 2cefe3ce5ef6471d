import HudsonSandbox.Inner.Journal
import HudsonSandbox.Protocol.AuthorityStorage

/-!
# The launch authority of a host

`launch.json` holds the ledger of permits beside the epoch of the process that serves it. Every
reader supplies lower bounds that it retained independently, and every writer holds the file's
exclusive lock from its read to its save.
-/

namespace HudsonSandbox.Inner
open Checked AllocationAuthority AllocationRetirement

/-- The texts that the authority stores and hashes. -/
structure Texts where
  json : Codec Authority (List UInt8)
  intents : Codec Intent (List UInt8)
  sha256 : List UInt8 → AllocationRetirement.Digest
  serde : Authority.Serde json

/-- The store's permits for this host: a serial and an allocation are each issued once. -/
structure Issuer where
  permit : ℕ → Permit
  serial : ∀ n, (permit n).serial = n
  allocation : ∀ m < 2 ^ 64, ∀ n < 2 ^ 64, (permit m).allocation = (permit n).allocation → m = n

/-- The ledger stands for the JSON text that the file holds. -/
structure AuthorityFile where
  epoch : ℤ
  ledger : Authority
  deriving DecidableEq

inductive RetirementPhase where
  | fenced | complete | closed
  deriving DecidableEq, Repr

namespace AuthorityFile
variable (texts : Texts) (host : HostId) (self : AuthorityFile)

def load (minimum : Checkpoint) : Except String Authority := do
  ensure (minimum.epoch ≤ self.epoch) "launch authority scope or epoch mismatch"
  let bytes ← (self.ledger.encode texts.json).mapError fun _ => "invalid launch metadata"
  (Authority.decode texts.json bytes host minimum.registeredThrough).mapError fun _ =>
    "invalid launch metadata"

def save (epoch : ℤ) (ledger : Authority) : Except String AuthorityFile := do
  let _ ← (ledger.encode texts.json).mapError fun _ => "launch metadata too large"
  pure { epoch, ledger }

/-- Save the outcome of a change, unless the ledger refuses it. -/
def change (outcome : Authority × Except AllocationAuthority.Error Unit) :
    Except String AuthorityFile := do
  outcome.2.mapError fun _ => "launch authority rejected"
  save texts self.epoch outcome.1

def update (minimum : Checkpoint) (reportingEpoch : ℤ)
    (outcome : Authority → Authority × Except AllocationAuthority.Error Unit) :
    Except String AuthorityFile := do
  let ledger ← self.load texts host minimum
  ensure (self.epoch = reportingEpoch) "stale launch authority writer"
  self.change texts (outcome ledger)

def register (minimum : Checkpoint) (reportingEpoch : ℤ) (permits : List Permit) :
    Except String AuthorityFile := do
  let ledger ← self.load texts host minimum
  ensure (self.epoch = reportingEpoch) "stale launch authority writer"
  ensure (∀ p ∈ permits, p.originalEpoch ≤ reportingEpoch) "future permit epoch"
  self.change texts (ledger.register texts.json permits)

def fence (minimum : Checkpoint) (epoch : ℤ) (permit : Permit) (retirement : OperationId) :
    Except String AuthorityFile :=
  self.update texts host minimum epoch fun ledger => ledger.fence permit retirement

/-- Held through the final launch decision. -/
def authorize (permit : Permit) : Except String Unit := do
  let ledger ← self.load texts permit.host
    { epoch := permit.originalEpoch, registeredThrough := permit.serial }
  ensure (self.epoch = permit.originalEpoch) "old launch epoch rejected"
  (ledger.authorize permit).mapError fun _ => "launch permit rejected"

def authorizeRegisteredAllocation (minimum : Checkpoint) (allocation : AllocationId) :
    Except String Permit := do
  let ledger ← self.load texts host minimum
  ensure (self.epoch = minimum.epoch) "allocation epoch rejected"
  let permit ← (ledger.activeAllocation allocation).mapError fun _ => "allocation rejected"
  ensure (permit.originalEpoch = minimum.epoch) "old allocation epoch rejected"
  pure permit

def authorizeRetirement (minimum : Checkpoint) (intent : Intent) : Except String Unit := do
  intent.validate.mapError fun _ => "invalid retirement intent"
  ensure (intent.permit.host = host ∧ intent.permit.originalEpoch ≤ minimum.epoch)
    "retirement owner mismatch"
  let ledger ← self.load texts host minimum
  ensure (self.epoch = minimum.epoch) "retirement epoch mismatch"
  let state ← (ledger.state intent.permit).mapError fun _ => "retirement authority conflict"
  ensure (state = .active ∨ state = .fenced intent.retirement) "retirement authority conflict"

/-- This proves only that a launch is durably denied. -/
def authorizeDeletion (minimum : Checkpoint) (intent : Intent) : Except String Unit := do
  intent.validate.mapError fun _ => "invalid retirement intent"
  ensure (intent.simulated = false ∧ intent.permit.originalEpoch ≤ minimum.epoch)
    "physical retirement required"
  let ledger ← self.load texts host minimum
  ensure (self.epoch = minimum.epoch) "deletion epoch mismatch"
  let state ← (ledger.state intent.permit).mapError fun _ => "exact retirement fence required"
  ensure (state = .fenced intent.retirement) "exact retirement fence required"

/-- How far the retirement of an intent's owner has come. -/
def phase (ledger : Authority) (intent : Intent) : Except String RetirementPhase :=
  match ledger.state intent.permit with
  | .ok (.fenced retirement) =>
    if retirement = intent.retirement then .ok .fenced else .error "forgetting authority conflict"
  | .ok (.complete _ _) => do
    (ledger.completed texts.intents texts.sha256 intent).mapError fun _ =>
      "forgetting authority conflict"
    pure .complete
  | .error .closed => .ok .closed
  | _ => .error "forgetting authority conflict"

def retirementGuard (minimum : Checkpoint) (epoch : ℤ) (intent : Intent) :
    Except String RetirementPhase := do
  intent.validate.mapError fun _ => "invalid retirement intent"
  ensure (intent.simulated = false ∧ intent.permit.originalEpoch ≤ epoch)
    "physical retirement required"
  let ledger ← self.load texts host minimum
  ensure (self.epoch = epoch) "stale forgetting epoch"
  phase texts ledger intent

/-! ### Under the retirement guard

The exclusive lock is held since the ledger was read, so the ledger in hand is the file's. -/

def complete (intent : Intent) : Except String AuthorityFile :=
  self.change texts (self.ledger.complete texts.intents texts.sha256 intent)

def forget (intent : Intent) : Except String AuthorityFile :=
  self.change texts (self.ledger.forget texts.intents texts.sha256 intent)

end AuthorityFile
end HudsonSandbox.Inner
