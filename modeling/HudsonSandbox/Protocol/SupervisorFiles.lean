import HudsonSandbox.Protocol.GuestModel
import HudsonSandbox.Sources.Plan

/-!
# Host file records

The compact evidence a host keeps of one upload: what it intended, what it asked the guest to
do, and the last state the guest reported. Paths and bytes are never retained.
-/

namespace HudsonSandbox.Files
open Checked GuestModel

def MAX_CHUNK_BYTES : ℕ := 32 * 1024
def MAX_RESERVED_BYTES : ℕ := 64 * 1024 * 1024

namespace Transfer

inductive State where
  | staging | commitIntent | committed | unknown | aborted
  deriving DecidableEq, Repr

structure Receipt where
  version : ℕ
  context : Context
  upload : Upload
  digest : Digest
  state : State
  deriving DecidableEq

end Transfer
end HudsonSandbox.Files

namespace HudsonSandbox.SupervisorFiles
open Checked GuestModel Files

def MAX_FILES : ℕ := 16
def MAX_HOST_FILES : ℕ := 1024
def MAX_RECORD_BYTES : ℕ := 2048

/-- A state of 0 means no observation; 1 to 5 are the guest's states. -/
structure FileRecord where
  digest : Digest
  context : Option Context
  size : ℕ
  notStarted : Bool
  commitRequested : Bool
  abortRequested : Bool
  state : ℕ
  deriving DecidableEq

/-- The JSON forms: the length of a record, and the SHA-256 of a descriptor's tagged text. -/
structure FileEncoding where
  length : FileRecord → ℕ
  sha256 : Upload → Digest

/-- `Upload::digest`, which checks the descriptor first. -/
def FileEncoding.digest (enc : FileEncoding) (upload : Upload) : Except String Digest := do
  ensure upload.Valid "invalid file descriptor"
  pure (enc.sha256 upload)

namespace FileRecord

def fenced (digest : Digest) : FileRecord :=
  { digest, context := none, size := 0, notStarted := true, commitRequested := false,
    abortRequested := false, state := 0 }

def validateIntent (self : FileRecord) : Except String Unit :=
  if self.notStarted then
    ensure (self.context = none ∧ self.size = 0 ∧ self.state = 0 ∧ self.commitRequested = false ∧
      self.abortRequested = false) "invalid file absence fence"
  else do
    let context ← okOr self.context "missing file context"
    ensure (0 < context.generation ∧ context.bootId ≠ "" ∧ context.bootId.utf8ByteSize ≤ 64)
      "invalid file context"
    ensure (¬(self.state = 2 ∨ self.state = 3) ∨ self.commitRequested = true)
      "file committed without host intent"
    ensure (self.state ≠ 5 ∨ self.abortRequested = true) "file aborted without host intent"

def validate (enc : FileEncoding) (self : FileRecord) : Except String Unit := do
  ensure (self.size ≤ MAX_FILE_BYTES ∧ self.state ≤ 5) "invalid retained file bounds"
  self.validateIntent
  ensure (enc.length self ≤ MAX_RECORD_BYTES) "file record exceeds bound"

def pending (enc : FileEncoding) (upload : Upload) (context : Context) :
    Except String FileRecord := do
  let digest ← enc.digest upload
  let record : FileRecord :=
    { digest, context := some context, size := upload.size,
      notStarted := false, commitRequested := false, abortRequested := false, state := 0 }
  record.validate enc
  pure record

def finished (self : FileRecord) : Prop := self.notStarted = true ∨ 3 ≤ self.state ∧ self.state ≤ 5

instance (self : FileRecord) : Decidable self.finished := inferInstanceAs (Decidable (_ ∨ _))

def stateNumber : Transfer.State → ℕ
  | .staging => 1
  | .commitIntent => 2
  | .committed => 3
  | .unknown => 4
  | .aborted => 5

/-- A receipt moves the record to the state it reports, if the host asked for that state. -/
def observe (enc : FileEncoding) (self : FileRecord) (upload : Upload) (receipt : Transfer.Receipt) :
    Except String FileRecord := do
  ensure (receipt.version = 1 ∧ 0 < receipt.context.generation ∧ receipt.context.bootId ≠ "" ∧
    receipt.context.bootId.utf8ByteSize ≤ 64) "invalid file receipt context"
  let digest ← enc.digest receipt.upload
  ensure (receipt.digest = digest) "invalid file receipt digest"
  ensure (self.notStarted = false ∧ self.context = some receipt.context ∧ receipt.upload = upload ∧
    self.digest = receipt.digest ∧ self.size = upload.size)
    "file receipt differs from original intent"
  let next := stateNumber receipt.state
  ensure (¬self.finished ∨ self.state = next) "terminal file receipt changed"
  ensure (¬(next = 2 ∨ next = 3) ∨ self.commitRequested = true) "unsolicited file commit"
  ensure (next ≠ 5 ∨ self.abortRequested = true) "unsolicited file abort"
  let moved := { self with state := next }
  moved.validate enc
  pure moved

def validateIdentity (enc : FileEncoding) (self : FileRecord) (id : OperationId) (upload : Upload) :
    Except String Unit := do
  let digest ← enc.digest upload
  ensure (upload.operationId = id ∧ digest = self.digest) "file descriptor changed"

end FileRecord
end HudsonSandbox.SupervisorFiles
