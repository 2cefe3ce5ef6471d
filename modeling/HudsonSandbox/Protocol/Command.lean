import HudsonSandbox.Protocol.GuestModel

/-!
# Commands

The command a guest runs, the input a caller submits for it, and the shape both have to have.
-/

namespace HudsonSandbox.GuestModel
open Checked

structure Execute where
  operationId : OperationId
  argv : List String
  env : List (String × String)
  cwd : String
  deadlineUnixMs : ℤ
  outputLimit : ℕ
  deriving DecidableEq

/-- The canonical JSON text of a command: its length, and the SHA-256 of its tagged form. -/
structure CommandEncoding where
  length : Execute → ℕ
  digest : Execute → Digest

def identifierStart (c : Char) : Bool := c = '_' || c.isAlpha

def ValidKey (key : String) : Prop :=
  match key.toList with
  | [] => False
  | first :: rest => identifierStart first = true ∧ ∀ c ∈ rest, (identifierStart c || c.isDigit) = true

instance (key : String) : Decidable (ValidKey key) := by
  unfold ValidKey
  split
  · infer_instance
  · next first rest _ =>
    have := List.decidableBAll (fun c => (identifierStart c || c.isDigit) = true) rest
    infer_instance

def NulFree (value : String) : Prop := '\x00' ∉ value.toList

instance (value : String) : Decidable (NulFree value) := inferInstanceAs (Decidable (¬_))

def Execute.validate (enc : CommandEncoding) (command : Execute) : Except String Unit := do
  ensure (command.argv ≠ [] ∧ command.argv.length ≤ 256) "invalid argv count"
  ensure (command.argv.head? ≠ some "") "empty executable"
  ensure ((∀ v ∈ command.argv, NulFree v) ∧ (command.argv.map String.utf8ByteSize).sum ≤ 32768)
    "invalid argv"
  ensure (command.env.length ≤ 128 ∧
    (command.env.map fun (k, v) => k.utf8ByteSize + v.utf8ByteSize).sum ≤ 16384)
    "environment too large"
  ensure (∀ entry ∈ command.env, ValidKey entry.1 ∧ NulFree entry.2) "invalid environment"
  ensure (command.cwd.toList.head? = some '/' ∧ command.cwd.utf8ByteSize ≤ 4096 ∧ NulFree command.cwd)
    "invalid working directory"
  ensure (1 ≤ command.outputLimit ∧ command.outputLimit ≤ MAX_OUTPUT) "invalid output limit"
  ensure (enc.length command ≤ 65536) "encoded request too large"

/-- The digest of a command that was checked first. -/
def Execute.digest (enc : CommandEncoding) (command : Execute) : Except String Digest := do
  command.validate enc
  pure (enc.digest command)

end HudsonSandbox.GuestModel

namespace HudsonSandbox.Command
open Checked GuestModel

/-- What the host retains before it sends a command to the guest. -/
def CommandRecord.pending (enc : CommandEncoding) (command : Execute) (context : Context) :
    Except String CommandRecord := do
  let digest ← command.digest enc
  pure { digest, context := some context, deadlineUnixMs := command.deadlineUnixMs,
         outputLimit := command.outputLimit, notStarted := false, receipt := none }

structure CommandInput where
  argv : List String
  env : List (String × String)
  cwd : String
  deadlineUnixMs : ℤ
  outputLimit : ℕ
  expectedGeneration : Option ℤ
  deriving DecidableEq

namespace CommandInput

def forOperation (input : CommandInput) (operationId : OperationId) : Execute :=
  { operationId, argv := input.argv, env := input.env, cwd := input.cwd,
    deadlineUnixMs := input.deadlineUnixMs, outputLimit := input.outputLimit }

/-- Shape only. The source checks it under a fresh identity; every identity has the same length. -/
def validate (enc : CommandEncoding) (input : CommandInput) : Except String Unit := do
  ensure (∀ generation ∈ input.expectedGeneration, 0 < generation)
    "expected generation must be positive"
  ensure (input.outputLimit ≤ Command.MAX_OUTPUT) "output limit exceeds public cap"
  (input.forOperation ⟨0⟩).validate enc

theorem validate_limit {enc : CommandEncoding} {input : CommandInput}
    (valid : input.validate enc = .ok ()) :
    1 ≤ input.outputLimit ∧ input.outputLimit ≤ Command.MAX_OUTPUT := by
  obtain ⟨_, valid⟩ := seq_ok.mp valid
  obtain ⟨public_, valid⟩ := seq_ok.mp valid
  unfold Execute.validate at valid
  obtain ⟨_, valid⟩ := seq_ok.mp valid
  obtain ⟨_, valid⟩ := seq_ok.mp valid
  obtain ⟨_, valid⟩ := seq_ok.mp valid
  obtain ⟨_, valid⟩ := seq_ok.mp valid
  obtain ⟨_, valid⟩ := seq_ok.mp valid
  obtain ⟨_, valid⟩ := seq_ok.mp valid
  obtain ⟨limit, _⟩ := seq_ok.mp valid
  exact ⟨(ensure_ok.mp limit).1, ensure_ok.mp public_⟩

end CommandInput
end HudsonSandbox.Command
