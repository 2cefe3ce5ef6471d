import HudsonSandbox.Protocol.LiveOutput

/-!
# Final output descriptors

The ticket a service assigns before it collects a command's final bytes, and the plan of the two
streams that is saved before anything is uploaded. They are storage metadata, never
authorization.
-/

namespace HudsonSandbox.Output
open Checked GuestModel LiveOutput

inductive OutputName where
  | stdout | stderr
  deriving DecidableEq, Repr

structure OutputTicket where
  version : ℕ
  owner : OutputOwner
  uploadAttempt : OperationId
  outputLimit : ℕ
  createdUnixMs : ℤ
  expiresUnixMs : ℤ
  deleteAfterUnixMs : ℤ
  deriving DecidableEq

structure OutputPlan where
  version : ℕ
  owner : OutputOwner
  uploadAttempt : OperationId
  name : OutputName
  size : ℕ
  sha256 : List UInt8
  seen : ℕ
  truncated : Bool
  createdUnixMs : ℤ
  expiresUnixMs : ℤ
  deleteAfterUnixMs : ℤ
  deriving DecidableEq

/-- Exactly two streams, persisted together. -/
structure OutputPlans where
  stdout : OutputPlan
  stderr : OutputPlan
  deriving DecidableEq

/-- `b.is_ascii_digit() || (b'a'..=b'f').contains(&b)` -/
def isLowerHex (b : UInt8) : Bool := (48 ≤ b && b ≤ 57) || (97 ≤ b && b ≤ 102)

def OutputTicket.validate (self : OutputTicket) : Except InvalidOutput Unit := do
  self.owner.validate
  ensure (self.version = 1 ∧ (1 ≤ self.outputLimit ∧ self.outputLimit ≤ Command.MAX_OUTPUT) ∧
    0 < self.createdUnixMs ∧ self.createdUnixMs < self.expiresUnixMs ∧
    self.expiresUnixMs ≤ self.deleteAfterUnixMs) .invalidOutputMetadata

def OutputPlan.validate (self : OutputPlan) : Except InvalidOutput Unit := do
  self.owner.validate
  ensure (self.version = 1 ∧ self.size ≤ Command.MAX_OUTPUT ∧ self.size ≤ self.seen ∧
    self.truncated = decide (self.size < self.seen) ∧ self.sha256.length = 64 ∧
    self.sha256.all isLowerHex = true ∧ 0 < self.createdUnixMs ∧
    self.createdUnixMs < self.expiresUnixMs ∧ self.expiresUnixMs ≤ self.deleteAfterUnixMs)
    .invalidOutputMetadata

/-- One attempt and one retention for both streams, within the command's own limit. -/
def validatePair (a b : OutputPlan) (owner : OutputOwner) (outputLimit : ℕ) :
    Except InvalidOutput Unit :=
  ensure (a.name = .stdout ∧ b.name = .stderr ∧ a.owner = owner ∧ b.owner = owner ∧
    a.uploadAttempt = b.uploadAttempt ∧ a.createdUnixMs = b.createdUnixMs ∧
    a.expiresUnixMs = b.expiresUnixMs ∧ a.deleteAfterUnixMs = b.deleteAfterUnixMs ∧
    (1 ≤ outputLimit ∧ outputLimit ≤ Command.MAX_OUTPUT) ∧ a.size + b.size ≤ outputLimit)
    .invalidOutputMetadata

def OutputPlans.validate (self : OutputPlans) (owner : OutputOwner) (outputLimit : ℕ) :
    Except InvalidOutput Unit := do
  self.stdout.validate
  self.stderr.validate
  validatePair self.stdout self.stderr owner outputLimit

def OutputTicket.validatePlans (self : OutputTicket) (plans : OutputPlans) :
    Except InvalidOutput Unit := do
  self.validate
  plans.validate self.owner self.outputLimit
  ensure (plans.stdout.uploadAttempt = self.uploadAttempt ∧
    plans.stdout.createdUnixMs = self.createdUnixMs ∧
    plans.stdout.expiresUnixMs = self.expiresUnixMs ∧
    plans.stdout.deleteAfterUnixMs = self.deleteAfterUnixMs) .invalidOutputMetadata

/-- The ticket and plans of a wire request, where the bytes parse. -/
structure OutputRequest where
  ticket : Option OutputTicket
  publicationRevision : ℤ
  claimExpiresUnixMs : ℤ
  plans : Option OutputPlans
  deriving DecidableEq

end HudsonSandbox.Output
