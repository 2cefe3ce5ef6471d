import HudsonSandbox.Inner.Authority

/-!
# Manifests and receipts

What a guardian was started with, and the receipt in which it records how far it came. Both are
JSON files in the directory of the allocation.
-/

namespace HudsonSandbox.Guardian
open Checked AllocationAuthority AllocationRetirement

/-! ### Paths -/

/-- A path as its text; two paths are compared by their components. -/
abbrev Path := List Char

inductive Component where
  | rootDir
  | curDir
  | parentDir
  | normal (name : List Char)
  deriving DecidableEq, Repr

namespace Path

def isAbsolute (path : Path) : Prop := path.head? = some '/'

instance (path : Path) : Decidable path.isAbsolute := inferInstanceAs (Decidable (_ = _))

/-- Empty segments and all but a leading `.` are skipped. -/
def segments : List (List Char) → List Component
  | [] => []
  | name :: rest =>
    if name = [] ∨ name = ['.'] then segments rest
    else if name = ['.', '.'] then .parentDir :: segments rest
    else .normal name :: segments rest

def components (path : Path) : List Component :=
  let names := path.splitOn '/'
  if path.isAbsolute then .rootDir :: segments names
  else if names.head? = some ['.'] then .curDir :: segments names
  else segments names

def join (path name : Path) : Path :=
  if name.isAbsolute then name
  else if path = [] ∨ path.getLast? = some '/' then path ++ name
  else path ++ '/' :: name

/-- `==` of paths. -/
def same (a b : Path) : Prop := a.components = b.components

instance (a b : Path) : Decidable (a.same b) := inferInstanceAs (Decidable (_ = _))

def startsWith (path base : Path) : Prop := base.components <+: path.components

instance (path base : Path) : Decidable (path.startsWith base) :=
  inferInstanceAs (Decidable (_ <+: _))

end Path

/-- A dedicated group below the root of the hierarchy. -/
def dedicated (parent : Path) : Prop :=
  parent.startsWith "/sys/fs/cgroup/".toList ∧ ¬parent.same "/sys/fs/cgroup".toList ∧
    .parentDir ∉ parent.components

instance (parent : Path) : Decidable (dedicated parent) :=
  inferInstanceAs (Decidable (_ ∧ ¬_ ∧ _ ∉ _))

/-! ### Records -/

structure Owner where
  host : HostId
  project : ProjectId
  sandbox : SandboxId
  allocation : AllocationId
  createOperation : OperationId
  generation : ℤ
  epoch : ℤ
  deriving DecidableEq

/-- `sha256` is lowercase hexadecimal. -/
structure Artifact where
  path : Path
  sha256 : List UInt8
  deriving DecidableEq

structure Config where
  stateRoot : Path
  cgroupParent : Path
  firecracker : Artifact
  jailer : Artifact
  kernel : Artifact
  rootfs : Artifact
  jailUid : ℕ
  jailGid : ℕ
  deriving DecidableEq

structure Start where
  owner : Owner
  vcpu : ℕ
  memoryMib : ℕ
  diskMib : ℕ
  expiresUnixMs : ℤ
  deriving DecidableEq

structure Manifest where
  launchPermit : Option Permit
  config : Config
  start : Start
  deriving DecidableEq

inductive State where
  | staging | prepared | launchIntent | running | stopping | fenced | stopped
  deriving DecidableEq, Repr

structure Receipt where
  version : ℕ
  owner : Owner
  digest : List UInt8
  hostBootId : List Char
  state : State
  cleanupConfirmed : Bool
  renewalRevision : ℕ
  expiresUnixMs : ℤ
  guardianHostPid : Option ℕ
  guardianStartTicks : Option ℕ
  firecrackerNamespacePid : Option ℕ
  cgroupInode : Option ℕ
  reason : Option (List Char)
  identityDigest : Option (List Char)
  identityExpiresUnixMs : Option ℤ
  guestBootId : Option (List Char)
  deriving DecidableEq

/-- The texts of the two records, beside those of the authority. -/
structure Texts extends Inner.Texts where
  manifests : Codec Manifest (List UInt8)
  receipts : Codec Receipt (List UInt8)

/-! ### Digests -/

def hexDigit (n : ℕ) : UInt8 := UInt8.ofNat (if n < 10 then 48 + n else 87 + n)

/-- `hex::encode` -/
def hex (digest : Digest) : List UInt8 :=
  digest.toList.flatMap fun byte => [hexDigit (byte.toNat / 16), hexDigit (byte.toNat % 16)]

def IsSha256 (text : List UInt8) : Prop := text.length = 64 ∧ text.all isLowerHex = true

instance (text : List UInt8) : Decidable (IsSha256 text) := inferInstanceAs (Decidable (_ ∧ _))

namespace Manifest

def directory (self : Manifest) : Path :=
  self.config.stateRoot.join self.start.owner.allocation.display

def socket (self : Manifest) : Path := self.directory.join "control.sock".toList

/-- The permit of a manifest names its owner. -/
def Permitted (self : Manifest) (p : Permit) : Prop :=
  let o := self.start.owner
  p.host = o.host ∧ p.project = o.project ∧ p.sandbox = o.sandbox ∧ p.allocation = o.allocation ∧
    p.createOperation = o.createOperation ∧ p.generation = o.generation ∧ p.originalEpoch = o.epoch

instance (self : Manifest) (p : Permit) : Decidable (self.Permitted p) :=
  inferInstanceAs (Decidable (_ ∧ _ ∧ _ ∧ _ ∧ _ ∧ _ ∧ _))

section
variable (texts : Texts) (self : Manifest)

def digest : Except String (List UInt8) := do
  let bytes ← okOr (texts.manifests.encode self) "invalid guardian metadata"
  pure (hex (texts.sha256 bytes))

/-- `root` says that the process runs as root. -/
def validate (root : Bool) : Except String Unit := do
  ensure (root = true) "allocation guardian requires root"
  ensure (∀ p ∈ self.launchPermit, self.Permitted p) "manifest launch permit ownership mismatch"
  ensure (0 < self.start.owner.generation ∧ 0 < self.start.owner.epoch) "invalid allocation ownership"
  ensure (Inner.Supported
    { vcpu := self.start.vcpu, memoryMib := self.start.memoryMib, diskMib := self.start.diskMib })
    "invalid VM resource bounds"
  ensure (65534 ≤ self.config.jailUid ∧ 65534 ≤ self.config.jailGid)
    "jailer must use an unprivileged UID/GID"
  ensure (self.config.stateRoot.isAbsolute ∧ .parentDir ∉ self.config.stateRoot.components)
    "invalid state root"
  ensure (dedicated self.config.cgroupParent) "dedicated cgroup parent required"
  ensure ((String.ofList self.socket).utf8ByteSize < 100) "guardian Unix socket path too long"
  ensure (∀ artifact ∈ [self.config.firecracker, self.config.jailer, self.config.kernel,
    self.config.rootfs], artifact.path.isAbsolute ∧ IsSha256 artifact.sha256)
    "invalid artifact path or digest"
  let bytes ← okOr (texts.manifests.encode self) "invalid guardian metadata"
  ensure (bytes.length ≤ 65536) "manifest too large"

def validateReceipt (r : Receipt) : Except String Unit := do
  let digest ← self.digest texts
  ensure (r.version = 1 ∧ r.owner = self.start.owner ∧ r.digest = digest ∧
    (∀ reason ∈ r.reason, (String.ofList reason).utf8ByteSize < 256) ∧
    (r.cleanupConfirmed = true ↔ r.state = .stopped))
    "guardian receipt ownership or shape mismatch"

end
end Manifest
end HudsonSandbox.Guardian
