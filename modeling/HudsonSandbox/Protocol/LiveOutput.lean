import HudsonSandbox.Library.Codec
import HudsonSandbox.Library.Text
import HudsonSandbox.Protocol.GuestModel

/-!
# Live output reads

The scope of one read of a running command's captured output, and the checks that hosts and
readers make on the bytes and the receipt a guest returns. An identity field of a wire message
stands for the text that renders it.
-/

namespace HudsonSandbox.LiveOutput
open Checked GuestModel Command

def MAX_CHUNK : ℕ := 32 * 1024

/-- Who issued a request, under which host epoch, and for how long. -/
structure Ownership where
  hostId : HostId
  projectId : ProjectId
  sandboxId : SandboxId
  allocationId : AllocationId
  operationId : OperationId
  generation : Int
  supervisorEpoch : Int
  claimRevision : Int
  claimExpiresUnixMs : Int
  deriving DecidableEq

structure OutputOwner where
  projectId : ProjectId
  sandboxId : SandboxId
  operationId : OperationId
  allocationId : AllocationId
  generation : Int
  hostId : HostId
  hostEpoch : Int
  bootId : String
  deriving DecidableEq

structure LiveOutputScope where
  version : ℕ
  owner : OutputOwner
  commandDigest : Digest
  outputLimit : ℕ
  deadlineUnixMs : Int
  deriving DecidableEq

/-- The one error of the descriptor checks. -/
inductive InvalidOutput where
  | invalidOutputMetadata
  deriving DecidableEq, Repr

def OutputOwner.validate (self : OutputOwner) : Except InvalidOutput Unit :=
  ensure (¬(self.generation ≤ 0 ∨ self.hostEpoch ≤ 0 ∨ self.bootId = "" ∨
    64 < self.bootId.utf8ByteSize ∨ self.bootId.toList.any Text.isControl))
    .invalidOutputMetadata

def LiveOutputScope.validate (self : LiveOutputScope) : Except InvalidOutput Unit := do
  self.owner.validate
  ensure (self.version = 1 ∧ 0 < self.deadlineUnixMs ∧
    1 ≤ self.outputLimit ∧ self.outputLimit ≤ Command.MAX_OUTPUT) .invalidOutputMetadata

inductive Stream where
  | unspecified | stdout | stderr
  deriving DecidableEq, Repr

def Stream.tryFrom : Int → Option Stream
  | 0 => some .unspecified
  | 1 => some .stdout
  | 2 => some .stderr
  | _ => none

def Stream.toInt : Stream → Int
  | .unspecified => 0
  | .stdout => 1
  | .stderr => 2

structure ReadOutput where
  operationId : OperationId
  stream : Int
  offset : ℕ
  limit : ℕ
  deriving DecidableEq

structure OutputChunk where
  operationId : OperationId
  stream : Int
  offset : ℕ
  nextOffset : ℕ
  data : List UInt8
  atEnd : Bool
  complete : Bool
  deriving DecidableEq

structure LiveOutputRequest where
  scopeJson : List UInt8
  output : Option ReadOutput
  expiresUnixMs : Int
  deriving DecidableEq

structure LiveOutputObservation where
  request : Option LiveOutputRequest
  hostId : HostId
  supervisorEpoch : Int
  simulated : Bool
  observedUnixMs : Int
  chunk : Option OutputChunk
  receipt : Option Receipt

inductive Code where
  | invalidArgument | failedPrecondition | unavailable
  deriving DecidableEq, Repr

structure Status where
  code : Code
  message : String
  deriving DecidableEq, Repr

section Decode
variable (scopes : Codec LiveOutputScope (List UInt8))

def decode (request : LiveOutputRequest) (now : Int) :
    Except Status (LiveOutputScope × ReadOutput) := do
  ensure (request.scopeJson.length ≤ 8192 ∧ 1 ≤ request.expiresUnixMs - now ∧
    request.expiresUnixMs - now ≤ 30000)
    ⟨.invalidArgument, "invalid live output scope or deadline"⟩
  let scope ← okOr (scopes.decode request.scopeJson)
    ⟨.invalidArgument, "invalid live output scope"⟩
  ensure (scope.validate = .ok ()) ⟨.invalidArgument, "invalid live output scope"⟩
  let read ← okOr request.output ⟨.invalidArgument, "output selector required"⟩
  ensure (¬(read.operationId ≠ scope.owner.operationId ∨
      ¬(1 ≤ read.limit ∧ read.limit ≤ MAX_CHUNK) ∨ scope.outputLimit < read.offset ∨
      ¬(Stream.tryFrom read.stream = some .stdout ∨ Stream.tryFrom read.stream = some .stderr)))
    ⟨.invalidArgument, "invalid live output range or identity"⟩
  pure (scope, read)

end Decode

def validateOwner (scope : LiveOutputScope) (owner : Ownership) (command : CommandRecord) :
    Except Status Unit :=
  let o := scope.owner
  ensure (¬(o.projectId ≠ owner.projectId ∨ o.sandboxId ≠ owner.sandboxId ∨
      o.allocationId ≠ owner.allocationId ∨ o.hostId ≠ owner.hostId ∨
      o.hostEpoch ≠ owner.supervisorEpoch ∨ o.generation ≠ owner.generation ∨
      command.notStarted = true ∨ command.digest ≠ scope.commandDigest ∨
      command.outputLimit ≠ scope.outputLimit ∨ command.deadlineUnixMs ≠ scope.deadlineUnixMs ∨
      command.context ≠ some ⟨o.allocationId, o.generation, o.bootId⟩))
    ⟨.failedPrecondition, "live output ownership mismatch"⟩

def finalReceipt (receipt : Receipt) : Prop := receipt.cleanupConfirmed = true ∧ receipt.state.known

instance (receipt : Receipt) : Decidable (finalReceipt receipt) :=
  inferInstanceAs (Decidable (_ ∧ _))

/-- The receipt's counters of the stream that was read. -/
def selectedStats (receipt : Receipt) (stream : Int) : Except Status Output :=
  match Stream.tryFrom stream with
  | some .stdout => .ok receipt.stdout
  | some .stderr => .ok receipt.stderr
  | _ => .error ⟨.invalidArgument, "invalid stream"⟩

def validateChunk (scope : LiveOutputScope) (read : ReadOutput) (command : CommandRecord)
    (chunk : OutputChunk) (receipt : Receipt) : Except Status Unit := do
  ensure (command.validateReceipt scope.owner.operationId receipt = .ok ())
    ⟨.unavailable, "invalid live output receipt"⟩
  ensure (receipt.state ≠ .unknown) ⟨.unavailable, "guest output state unknown"⟩
  let stats ← selectedStats receipt read.stream
  ensure (¬(chunk.operationId ≠ read.operationId ∨ chunk.stream ≠ read.stream ∨
      chunk.offset ≠ read.offset ∨ read.limit < chunk.data.length ∨
      MAX_CHUNK < chunk.data.length ∨
      checkedAdd 64 chunk.offset chunk.data.length ≠ some chunk.nextOffset ∨
      stats.stored < chunk.nextOffset ∨
      (chunk.atEnd = false ∧ (chunk.data = [] ∨ stats.stored ≤ chunk.nextOffset)) ∨
      (chunk.complete = true ∧ (¬finalReceipt receipt ∨
        chunk.atEnd ≠ decide (chunk.nextOffset = stats.stored)))))
    ⟨.unavailable, "invalid live output bytes or bounds"⟩

/-- What the checks leave of a chunk: its bytes lie inside the captured prefix. -/
structure ChunkValid (read : ReadOutput) (chunk : OutputChunk) (stats : Output) : Prop where
  offset : chunk.offset = read.offset
  size : chunk.data.length ≤ MAX_CHUNK
  next : checkedAdd 64 chunk.offset chunk.data.length = some chunk.nextOffset
  stored : chunk.nextOffset ≤ stats.stored
  inside : chunk.atEnd = false → chunk.nextOffset < stats.stored
  complete : chunk.complete = true → chunk.atEnd = decide (chunk.nextOffset = stats.stored)

theorem validateChunk_ok {scope : LiveOutputScope} {read : ReadOutput} {command : CommandRecord}
    {chunk : OutputChunk} {receipt : Receipt}
    (accepted : validateChunk scope read command chunk receipt = .ok ()) :
    command.validateReceipt scope.owner.operationId receipt = .ok () ∧
      ∃ stats, selectedStats receipt read.stream = .ok stats ∧ ChunkValid read chunk stats := by
  obtain ⟨shape, accepted⟩ := seq_ok.mp accepted
  obtain ⟨_, accepted⟩ := seq_ok.mp accepted
  obtain ⟨stats, selected, accepted⟩ := bind_ok.mp accepted
  have bounds := ensure_ok.mp accepted
  simp only [not_or, not_not, not_lt, not_and] at bounds
  obtain ⟨_, _, offset, _, size, next, stored, inside, complete⟩ := bounds
  refine ⟨ensure_ok.mp shape, stats, selected, offset, size, next, stored, ?_, ?_⟩
  · intro partway
    exact not_le.mp (inside partway).2
  · intro whole
    exact (complete whole).2

/-- A reader's own record of the intent accepts what the host accepted for the same scope. -/
theorem validateChunk_scope {scope : LiveOutputScope} {owner : Ownership} {read : ReadOutput}
    {command : CommandRecord} {chunk : OutputChunk} {receipt : Receipt}
    (owned : validateOwner scope owner command = .ok ()) :
    validateChunk scope read command chunk receipt =
      validateChunk scope read
        { digest := scope.commandDigest
          context := some ⟨scope.owner.allocationId, scope.owner.generation, scope.owner.bootId⟩
          deadlineUnixMs := scope.deadlineUnixMs
          outputLimit := scope.outputLimit
          notStarted := false
          receipt := none } chunk receipt := by
  have facts := ensure_ok.mp owned
  simp only [not_or, not_not] at facts
  obtain ⟨_, _, _, _, _, _, started, digest, limit, deadline, context⟩ := facts
  have live : command.notStarted = false := by simpa using started
  simp only [validateChunk, CommandRecord.validateReceipt, live, digest, limit, deadline, context]

end HudsonSandbox.LiveOutput
