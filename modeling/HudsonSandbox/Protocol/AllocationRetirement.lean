import HudsonSandbox.Library.Checked
import HudsonSandbox.Library.Codec
import HudsonSandbox.Protocol.Ids

/-!
# Launch permits and retirement intents

The immutable identity an issuer registers before a create may use it, and the frozen scope
under which the whole allocation is later retired.
-/

namespace HudsonSandbox.AllocationAuthority
open Checked

def MAX_ENTRIES : ℕ := 1024
def MAX_BATCH : ℕ := 32
def MAX_BYTES : ℕ := 1024 * 1024
def MAX_SERIAL : ℕ := 2 ^ 63 - 1

inductive Error where
  | invalid
  | ownership
  | capacity
  | registrationOrder
  | closed
  | unregistered
  | conflict
  deriving DecidableEq, Repr

structure Permit where
  host : HostId
  project : ProjectId
  sandbox : SandboxId
  allocation : AllocationId
  createOperation : OperationId
  generation : Int
  originalEpoch : Int
  serial : ℕ
  deriving DecidableEq, Repr

def validUuid (id : Uuid) : Except Error Unit :=
  ensure (id.getVersionNum = 7 ∧ id.getVariant = .rfc4122) .invalid

@[simp] theorem validUuid_ok {id : Uuid} {u : Unit} : validUuid id = .ok u ↔ id.Valid :=
  ensure_ok

def Permit.validate (self : Permit) : Except Error Unit := do
  validUuid self.host.uuid
  validUuid self.project.uuid
  validUuid self.sandbox.uuid
  validUuid self.allocation.uuid
  validUuid self.createOperation.uuid
  ensure (¬(self.generation ≤ 0 ∨ self.originalEpoch ≤ 0 ∨ self.serial = 0 ∨
    self.serial > MAX_SERIAL)) .invalid

/-- Everything `validate` checks, as facts a later proof can read. -/
structure Permit.Valid (permit : Permit) : Prop where
  host : permit.host.uuid.Valid
  project : permit.project.uuid.Valid
  sandbox : permit.sandbox.uuid.Valid
  allocation : permit.allocation.uuid.Valid
  createOperation : permit.createOperation.uuid.Valid
  generation : 0 < permit.generation
  originalEpoch : 0 < permit.originalEpoch
  positive : 0 < permit.serial
  bounded : permit.serial ≤ MAX_SERIAL

theorem Permit.validate_ok {permit : Permit} {u : Unit} :
    permit.validate = .ok u ↔ permit.Valid := by
  simp only [validate, seq_ok, validUuid_ok, ensure_ok]
  constructor
  · rintro ⟨host, project, sandbox, allocation, operation, numbers⟩
    exact ⟨host, project, sandbox, allocation, operation, by omega, by omega, by omega, by omega⟩
  · rintro ⟨host, project, sandbox, allocation, operation, generation, epoch, positive, bounded⟩
    exact ⟨host, project, sandbox, allocation, operation, by omega⟩

end HudsonSandbox.AllocationAuthority

namespace HudsonSandbox.AllocationRetirement
open Checked AllocationAuthority

def MAX_BYTES : ℕ := 8192

inductive Error where
  | invalid
  | scope
  | claim
  deriving DecidableEq, Repr

/-- `empty` was explicitly frozen empty, never inferred from a missing receipt. -/
inductive DomainClosure where
  | empty
  | retired (through : OperationId)
  deriving DecidableEq, Repr

structure Intent where
  version : ℕ
  retirement : OperationId
  permit : Permit
  commands : DomainClosure
  files : DomainClosure
  releaseEvidenceSha256 : List UInt8
  simulated : Bool
  deriving DecidableEq, Repr

/-- A claim on a frozen intent; a later revision replaces an earlier one. -/
structure Request where
  intent : Intent
  reportingEpoch : Int
  revision : Int
  expiresUnixMs : Int
  deriving DecidableEq, Repr

abbrev Digest := Vector UInt8 32

/-- `b.is_ascii_digit() || (b'a'..=b'f').contains(&b)` -/
def isLowerHex (b : UInt8) : Bool := (48 ≤ b && b ≤ 57) || (97 ≤ b && b ≤ 102)

def DomainClosure.validate (self : DomainClosure) (retirement createOperation : OperationId) :
    Except Error Unit :=
  match self with
  | .empty => .ok ()
  | .retired through =>
    ensure (¬(¬through.uuid.Valid ∨ through = retirement ∨ through = createOperation)) .invalid

def Intent.validate (self : Intent) : Except Error Unit := do
  ensure (self.version = 1 ∧ self.retirement.uuid.Valid ∧
    self.retirement ≠ self.permit.createOperation ∧ self.permit.validate = .ok () ∧
    self.releaseEvidenceSha256.length = 64 ∧
    self.releaseEvidenceSha256.all isLowerHex = true) .invalid
  self.commands.validate self.retirement self.permit.createOperation
  self.files.validate self.retirement self.permit.createOperation

/-- `retained` and `currentEpoch` come from independent durable state. -/
def Request.validate (self : Request) (retained : Intent)
    (currentEpoch minimumRevision nowUnixMs : Int) : Except Error Unit := do
  self.intent.validate
  retained.validate
  ensure (self.intent = retained) .scope
  ensure (¬(minimumRevision ≤ 0 ∨ self.revision < minimumRevision ∨ nowUnixMs ≤ 0 ∨
    self.expiresUnixMs ≤ nowUnixMs ∨ self.reportingEpoch < self.intent.permit.originalEpoch ∨
    self.reportingEpoch ≠ currentEpoch)) .claim

/-- Issued only after the store has recorded the host's metadata completion. -/
structure ForgetRequest where
  version : ℕ
  claim : Request
  metadataRequest : Request
  deriving DecidableEq, Repr

def ForgetRequest.shape (self : ForgetRequest) : Except Error Unit := do
  self.claim.intent.validate
  self.metadataRequest.intent.validate
  ensure (¬(self.version ≠ 1 ∨ self.claim.intent.simulated = true ∨
    self.claim.intent ≠ self.metadataRequest.intent ∨ self.metadataRequest.revision ≤ 0 ∨
    self.metadataRequest.expiresUnixMs ≤ 0 ∨
    self.metadataRequest.reportingEpoch < self.claim.intent.permit.originalEpoch ∨
    self.claim.reportingEpoch < self.metadataRequest.reportingEpoch ∨
    self.claim.revision ≤ 0 ∨ self.claim.expiresUnixMs ≤ 0)) .invalid

def ForgetRequest.validate (self : ForgetRequest) (epoch now : Int) : Except Error Unit := do
  self.shape
  self.claim.validate self.metadataRequest.intent epoch 1 now

section Encoding
variable (json : Codec Intent (List UInt8)) (sha256 : List UInt8 → Digest)

def Intent.encode (self : Intent) : Except Error (List UInt8) := do
  self.validate
  let bytes ← okOr (json.encode self) .invalid
  ensure (bytes.length ≤ MAX_BYTES) .invalid
  pure bytes

def Intent.decode (bytes : List UInt8) : Except Error Intent := do
  ensure (bytes.length ≤ MAX_BYTES) .invalid
  let intent ← okOr (json.decode bytes) .invalid
  intent.validate
  pure intent

def Intent.digest (self : Intent) : Except Error Digest := do
  let bytes ← self.encode json
  pure (sha256 bytes)

variable {json sha256}

theorem Intent.digest_ok {intent : Intent} {digest : Digest}
    (read : intent.digest json sha256 = .ok digest) : intent.validate = .ok () := by
  obtain ⟨bytes, encoded, _⟩ := bind_ok.mp read
  exact (seq_ok.mp encoded).1

theorem Intent.validate_retirement {intent : Intent} (valid : intent.validate = .ok ()) :
    intent.retirement.uuid.Valid :=
  (ensure_ok.mp (seq_ok.mp valid).1).2.1

theorem Intent.validate_permit {intent : Intent} (valid : intent.validate = .ok ()) :
    intent.permit.Valid :=
  Permit.validate_ok.mp (ensure_ok.mp (seq_ok.mp valid).1).2.2.2.1

end Encoding
end HudsonSandbox.AllocationRetirement
