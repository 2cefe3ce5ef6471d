import HudsonSandbox.Library.Checked
import HudsonSandbox.Protocol.Ids
import Mathlib.Data.Int.Notation

/-!
# Private immutable source objects for admitted file writes

The plan an upload persists before its first byte is stored, the reference to the stored
object, and the receipt of its retirement, each with the checks its readers repeat.
-/

namespace HudsonSandbox
open Checked

namespace FileDownloads

structure ReadScope where
  version : ℕ
  hostId : HostId
  hostEpoch : ℤ
  projectId : ProjectId
  sandboxId : SandboxId
  allocationId : AllocationId
  generation : ℤ
  deriving DecidableEq, Repr

def ReadScope.Valid (scope : ReadScope) : Prop :=
  scope.version = 1 ∧ 0 < scope.hostEpoch ∧ 0 < scope.generation

instance (scope : ReadScope) : Decidable scope.Valid := inferInstanceAs (Decidable (_ ∧ _))

end FileDownloads

namespace Files

def MAX_FILE_BYTES : ℕ := 8 * 1024 * 1024
def STATE_DIRECTORY : List Char := ".hudson-transfers".toList

/-- The number of UTF-8 bytes. -/
def byteLength (text : List Char) : ℕ := (text.map Char.utf8Size).sum

def ValidComponent (part : List Char) : Prop :=
  part ≠ [] ∧ part ≠ ['.'] ∧ part ≠ ['.', '.'] ∧ byteLength part ≤ 255

instance (part : List Char) : Decidable (ValidComponent part) := inferInstanceAs (Decidable (_ ∧ _))

/-- Canonical path relative to the configured workspace; no shell expansion. -/
def ValidPath (path : List Char) : Prop :=
  (path ≠ [] ∧ byteLength path ≤ 4096) ∧
    (∀ c ∈ path, ¬(c.toNat < 32 ∨ c.toNat = 127 ∨ c = '\\')) ∧
    (∀ part ∈ path.splitOn '/', ValidComponent part) ∧
    (path.splitOn '/').head? ≠ some STATE_DIRECTORY

instance (path : List Char) : Decidable (ValidPath path) :=
  have : Decidable (∀ c ∈ path, ¬(c.toNat < 32 ∨ c.toNat = 127 ∨ c = '\\')) := List.decidableBAll _ path
  inferInstanceAs (Decidable (_ ∧ _))

structure Upload where
  operationId : OperationId
  path : List Char
  size : ℕ
  sha256 : BitVec 256
  mode : ℕ
  deriving DecidableEq, Repr

/-- Only ordinary 0644 or executable 0755 files are supported. -/
def Upload.Valid (upload : Upload) : Prop :=
  ValidPath upload.path ∧ upload.size ≤ MAX_FILE_BYTES ∧ (upload.mode = 0o644 ∨ upload.mode = 0o755)

instance (upload : Upload) : Decidable upload.Valid := inferInstanceAs (Decidable (_ ∧ _))

end Files

namespace FileSources
open FileDownloads Files

inductive InvalidSource where
  | invalidSource
  deriving DecidableEq, Repr

/-- Independently resolved operation ownership, separate from a stored reference. -/
structure SourceOwner where
  scope : ReadScope
  operationId : OperationId
  deriving DecidableEq, Repr

structure SourcePlan where
  version : ℕ
  owner : SourceOwner
  upload : Upload
  sourceAttempt : OperationId
  createdUnixMs : ℤ
  writeExpiresUnixMs : ℤ
  expiresUnixMs : ℤ
  deleteAfterUnixMs : ℤ
  deriving DecidableEq, Repr

structure SourceRef where
  plan : SourcePlan
  etag : String
  objectVersion : Option String
  deriving DecidableEq, Repr

structure SourceRetirement where
  version : ℕ
  planSha256 : String
  previous : Option SourceRef
  markerEtag : String
  markerVersion : Option String
  deriving DecidableEq, Repr

namespace SourcePlan

def validate (plan : SourcePlan) : Except InvalidSource Unit := do
  ensure plan.owner.scope.Valid .invalidSource
  ensure plan.upload.Valid .invalidSource
  ensure (¬(plan.owner.operationId ≠ plan.upload.operationId ∨ plan.version ≠ 1 ∨
    plan.createdUnixMs ≤ 0 ∨ plan.writeExpiresUnixMs ≤ plan.createdUnixMs ∨
    plan.expiresUnixMs < plan.writeExpiresUnixMs ∨ plan.deleteAfterUnixMs < plan.expiresUnixMs))
    .invalidSource

/-- The key that only this attempt ever writes under. -/
def objectKey (plan : SourcePlan) : Except InvalidSource (List Char) := do
  plan.validate
  let scope := plan.owner.scope
  pure (List.intercalate ['/']
    ["file-source".toList, "v1".toList, scope.projectId.display, scope.sandboxId.display,
      plan.upload.operationId.display, scope.allocationId.display,
      (toString scope.generation).toList, scope.hostId.display, (toString scope.hostEpoch).toList,
      plan.sourceAttempt.display])

/-- `hash` stands for the hexadecimal SHA-256 of the tagged JSON text of a plan. -/
def metadataDigest (hash : SourcePlan → String) (plan : SourcePlan) :
    Except InvalidSource String := do
  plan.validate
  pure (hash plan)

theorem metadataDigest_of_valid {hash : SourcePlan → String} {plan : SourcePlan}
    (valid : plan.validate = .ok ()) : plan.metadataDigest hash = .ok (hash plan) := by
  unfold metadataDigest
  rw [valid]
  rfl

end SourcePlan

/-- A storage identity: present, bounded and without control characters. -/
def ValidIdentity (value : String) : Prop :=
  value ≠ "" ∧ value.utf8ByteSize ≤ 1024 ∧
    ∀ c ∈ value.toList, ¬(c.toNat < 32 ∨ (127 ≤ c.toNat ∧ c.toNat < 160))

instance (value : String) : Decidable (ValidIdentity value) :=
  have : Decidable (∀ c ∈ value.toList, ¬(c.toNat < 32 ∨ (127 ≤ c.toNat ∧ c.toNat < 160))) :=
    List.decidableBAll _ value.toList
  inferInstanceAs (Decidable (_ ∧ _))

def SourceRef.validate (reference : SourceRef) : Except InvalidSource Unit := do
  reference.plan.validate
  ensure (∀ value ∈ reference.etag :: reference.objectVersion.toList, ValidIdentity value)
    .invalidSource

/-- Whether a marker's version may have replaced an object of the earlier version. -/
def compatible (previous marker : Option String) : Bool :=
  match previous, marker with
  | none, none => true
  | some old, some new => (old = "null" ∧ new = "null") ∨ old ≠ new
  | _, _ => false

namespace SourceRetirement

def validate (hash : SourcePlan → String) (receipt : SourceRetirement) (plan : SourcePlan) :
    Except InvalidSource Unit := do
  let digest ← plan.metadataDigest hash
  ensure (receipt.version = 1 ∧ receipt.planSha256 = digest) .invalidSource
  ensure (∀ value ∈ receipt.markerEtag :: receipt.markerVersion.toList, ValidIdentity value)
    .invalidSource
  match receipt.previous with
  | none => pure ()
  | some previous =>
    previous.validate
    ensure (previous.plan = plan ∧ compatible previous.objectVersion receipt.markerVersion = true)
      .invalidSource

end SourceRetirement
end FileSources
end HudsonSandbox
