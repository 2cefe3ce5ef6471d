import HudsonSandbox.Library.Checked
import HudsonSandbox.Protocol.Ids
import Mathlib.Data.Vector.Defs

/-!
# Guest receipts and host command records

The receipt a guest reports for one command, and the record the host keeps of the intent that
the receipt has to match.
-/

namespace HudsonSandbox.GuestModel
open Checked

def MAX_OUTPUT : ℕ := 16 * 1024 * 1024
def MAX_RECORDS : ℕ := 128
def MAX_RESERVED_OUTPUT : ℕ := 64 * 1024 * 1024

abbrev Digest := Vector UInt8 32

structure Context where
  allocationId : AllocationId
  generation : Int
  bootId : String
  deriving DecidableEq

inductive State where
  | launchIntent
  | exited
  | timedOut
  | cancelled
  | unknown
  deriving DecidableEq, Repr

def State.terminal (state : State) : Prop := state ≠ .launchIntent

instance (state : State) : Decidable state.terminal := inferInstanceAs (Decidable (_ ≠ _))

/-- The three states whose process result is known. -/
def State.known (state : State) : Prop := state = .exited ∨ state = .timedOut ∨ state = .cancelled

instance (state : State) : Decidable state.known := inferInstanceAs (Decidable (_ ∨ _))

structure Output where
  seen : ℕ := 0
  stored : ℕ := 0
  truncated : Bool := false
  deriving DecidableEq, Repr

structure Receipt where
  version : ℕ
  context : Context
  operationId : OperationId
  digest : Digest
  state : State
  deadlineUnixMs : Int
  outputLimit : ℕ
  cancelRequested : Bool
  cleanupConfirmed : Bool
  exitCode : Option Int
  signal : Option Int
  stdout : Output
  stderr : Output
  reason : Option String
  deriving DecidableEq

namespace Receipt

def exitStatus (self : Receipt) : Except String Unit :=
  if self.state = .exited then do
    ensure (xor self.exitCode.isSome self.signal.isSome) "missing or ambiguous exit status"
    ensure ((∀ n ∈ self.exitCode, 0 ≤ n ∧ n ≤ 255) ∧ ∀ n ∈ self.signal, 1 ≤ n ∧ n ≤ 64)
      "invalid exit status"
  else ensure (self.exitCode.isNone ∧ self.signal.isNone) "unexpected exit status"

/-- Shape validation only. -/
def validate (self : Receipt) : Except String Unit := do
  ensure (self.version = 1 ∧ 0 < self.context.generation ∧ self.context.bootId ≠ "" ∧
    self.context.bootId.utf8ByteSize ≤ 64) "invalid receipt context"
  ensure ((1 ≤ self.outputLimit ∧ self.outputLimit ≤ MAX_OUTPUT) ∧
    self.stdout.stored ≤ self.stdout.seen ∧ self.stderr.stored ≤ self.stderr.seen ∧
    (∃ n ∈ checkedAdd 64 self.stdout.stored self.stderr.stored, n ≤ self.outputLimit) ∧
    self.stdout.truncated = decide (self.stdout.stored < self.stdout.seen) ∧
    self.stderr.truncated = decide (self.stderr.stored < self.stderr.seen) ∧
    ∀ s ∈ self.reason, s.utf8ByteSize ≤ 256) "invalid receipt output or reason"
  self.exitStatus
  ensure (self.state ≠ .launchIntent ∨ self.cleanupConfirmed = false)
    "active receipt claims cleanup"
  ensure (¬self.state.known ∨ self.cleanupConfirmed = true) "terminal receipt lacks cleanup"
  ensure (self.state ≠ .cancelled ∨ self.cancelRequested = true) "cancelled without request"

/-- A stream's counters agree with each other and fit the receipt's own limit. -/
structure OutputValid (output : Output) (limit : ℕ) : Prop where
  stored : output.stored ≤ output.seen
  limit : output.stored ≤ limit
  truncated : output.truncated = decide (output.stored < output.seen)

theorem validate_output {receipt : Receipt} (valid : receipt.validate = .ok ()) :
    OutputValid receipt.stdout receipt.outputLimit ∧
      OutputValid receipt.stderr receipt.outputLimit := by
  obtain ⟨_, valid⟩ := seq_ok.mp valid
  obtain ⟨counters, _⟩ := seq_ok.mp valid
  obtain ⟨_, outSeen, errSeen, ⟨n, sum, fits⟩, outCut, errCut, _⟩ := ensure_ok.mp counters
  have total := checkedAdd_eq sum
  exact ⟨⟨outSeen, by omega, outCut⟩, ⟨errSeen, by omega, errCut⟩⟩

theorem validate_context {receipt : Receipt} (valid : receipt.validate = .ok ()) :
    0 < receipt.context.generation ∧ receipt.context.bootId ≠ "" ∧
      receipt.context.bootId.utf8ByteSize ≤ 64 := by
  obtain ⟨context, _⟩ := seq_ok.mp valid
  exact (ensure_ok.mp context).2

end Receipt
end HudsonSandbox.GuestModel

namespace HudsonSandbox.Command
open Checked GuestModel

def MAX_OUTPUT : ℕ := 10 * 1024 * 1024
def MAX_DURATION_MS : Int := 6 * 60 * 60 * 1000

/-- Leaves space in each allocation's 64-operation fence budget for lifecycle work. -/
def MAX_COMMANDS : ℕ := 32

structure CommandRecord where
  digest : Digest
  context : Option Context
  deadlineUnixMs : Int
  outputLimit : ℕ
  notStarted : Bool
  receipt : Option Receipt
  deriving DecidableEq

namespace CommandRecord

def fenced (digest : Digest) : CommandRecord :=
  { digest, context := none, deadlineUnixMs := 0, outputLimit := 0, notStarted := true,
    receipt := none }

def finished (self : CommandRecord) : Prop :=
  self.notStarted = true ∨ ∃ r ∈ self.receipt, r.cleanupConfirmed = true ∧ r.state.known

instance (self : CommandRecord) : Decidable self.finished := inferInstanceAs (Decidable (_ ∨ _))

def validateReceipt (self : CommandRecord) (id : OperationId) (receipt : Receipt) :
    Except String Unit := do
  receipt.validate
  ensure (self.notStarted = false ∧ receipt.operationId = id ∧
    self.context = some receipt.context ∧ self.digest = receipt.digest ∧
    self.deadlineUnixMs = receipt.deadlineUnixMs ∧ self.outputLimit = receipt.outputLimit)
    "command receipt does not match retained intent"

theorem validateReceipt_ok {self : CommandRecord} {id : OperationId} {receipt : Receipt}
    (valid : self.validateReceipt id receipt = .ok ()) :
    receipt.validate = .ok () ∧ self.outputLimit = receipt.outputLimit := by
  obtain ⟨shape, valid⟩ := seq_ok.mp valid
  exact ⟨shape, (ensure_ok.mp valid).2.2.2.2.2⟩

end CommandRecord
end HudsonSandbox.Command
