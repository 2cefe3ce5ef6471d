import HudsonSandbox.Protocol.Command

/-!
# Valid receipts

What a receipt's check asks for, part by part, and the changes of a receipt that keep it.
-/

namespace HudsonSandbox.GuestModel
open Checked

def Context.Valid (self : Context) : Prop :=
  0 < self.generation ∧ self.bootId ≠ "" ∧ self.bootId.utf8ByteSize ≤ 64

/-- Counters as a capture counts them. -/
structure Output.Counted (output : Output) : Prop where
  stored : output.stored ≤ output.seen
  truncated : output.truncated = decide (output.stored < output.seen)

/-- The exit status that goes with a state. -/
def Receipt.Status (self : Receipt) : Prop :=
  if self.state = .exited then
    xor self.exitCode.isSome self.signal.isSome ∧ (∀ n ∈ self.exitCode, 0 ≤ n ∧ n ≤ 255) ∧
      ∀ n ∈ self.signal, 1 ≤ n ∧ n ≤ 64
  else self.exitCode = none ∧ self.signal = none

structure Receipt.Valid (receipt : Receipt) : Prop where
  version : receipt.version = 1
  context : receipt.context.Valid
  limit : 1 ≤ receipt.outputLimit ∧ receipt.outputLimit ≤ MAX_OUTPUT
  stdout : receipt.stdout.Counted
  stderr : receipt.stderr.Counted
  stored : receipt.stdout.stored + receipt.stderr.stored ≤ receipt.outputLimit
  reason : ∀ s ∈ receipt.reason, s.utf8ByteSize ≤ 256
  status : receipt.Status
  active : receipt.state = .launchIntent → receipt.cleanupConfirmed = false
  ended : receipt.state.known → receipt.cleanupConfirmed = true
  cancelled : receipt.state = .cancelled → receipt.cancelRequested = true

theorem Receipt.exitStatus_ok {self : Receipt} : self.exitStatus = .ok () ↔ self.Status := by
  unfold Receipt.exitStatus Receipt.Status
  by_cases exited : self.state = .exited
  · rw [if_pos exited, if_pos exited]
    simp [seq_ok]
  · rw [if_neg exited, if_neg exited]
    simp

theorem Receipt.validate_iff {self : Receipt} : self.validate = .ok () ↔ self.Valid := by
  constructor
  · intro valid
    obtain ⟨context, valid⟩ := seq_ok.mp valid
    obtain ⟨output, valid⟩ := seq_ok.mp valid
    obtain ⟨status, valid⟩ := seq_ok.mp valid
    obtain ⟨active, valid⟩ := seq_ok.mp valid
    obtain ⟨ended, cancelled⟩ := seq_ok.mp valid
    obtain ⟨version, context⟩ := ensure_ok.mp context
    obtain ⟨limit, out, err, ⟨n, sum, fits⟩, outCut, errCut, reason⟩ := ensure_ok.mp output
    have total := checkedAdd_eq sum
    have active := ensure_ok.mp active
    have ended := ensure_ok.mp ended
    have cancelled := ensure_ok.mp cancelled
    exact ⟨version, context, limit, ⟨out, outCut⟩, ⟨err, errCut⟩, by omega, reason, exitStatus_ok.mp status,
      fun launched => active.resolve_left (not_not.mpr launched),
      fun known => ended.resolve_left (not_not.mpr known),
      fun ended => cancelled.resolve_left (not_not.mpr ended)⟩
  · intro valid
    have stored := valid.stored
    have limit := valid.limit
    have word : self.stdout.stored + self.stderr.stored < 2 ^ 64 := by
      unfold MAX_OUTPUT at limit
      omega
    refine seq_ok.mpr ⟨ensure_ok.mpr ⟨valid.version, valid.context⟩, seq_ok.mpr ⟨ensure_ok.mpr ?_,
      seq_ok.mpr ⟨exitStatus_ok.mpr valid.status, seq_ok.mpr ⟨ensure_ok.mpr ?_,
        seq_ok.mpr ⟨ensure_ok.mpr ?_, ensure_ok.mpr ?_⟩⟩⟩⟩⟩
    · exact ⟨limit, valid.stdout.stored, valid.stderr.stored, ⟨_, checkedAdd_some.mpr ⟨word, rfl⟩, stored⟩,
        valid.stdout.truncated, valid.stderr.truncated, valid.reason⟩
    · by_cases launched : self.state = .launchIntent
      · exact .inr (valid.active launched)
      · exact .inl launched
    · by_cases known : self.state.known
      · exact .inr (valid.ended known)
      · exact .inl known
    · by_cases cancelled : self.state = .cancelled
      · exact .inr (valid.cancelled cancelled)
      · exact .inl cancelled

variable {receipt : Receipt}

/-- A request to cancel does not touch anything that is checked. -/
theorem Receipt.Valid.cancel (valid : receipt.Valid) :
    Receipt.Valid { receipt with cancelRequested := true } :=
  { valid with cancelled := fun _ => rfl }

/-- Counters that fit together may take the place of others. -/
theorem Receipt.Valid.count (valid : receipt.Valid) {stdout stderr : Output} (out : stdout.Counted)
    (err : stderr.Counted) (fits : stdout.stored + stderr.stored ≤ receipt.outputLimit) :
    Receipt.Valid { receipt with stdout, stderr } :=
  { valid with stdout := out, stderr := err, stored := fits }

/-- An uncertain receipt says nothing about the process, whatever is known of its cleanup. -/
theorem Receipt.Valid.uncertain (valid : receipt.Valid) {cleanupConfirmed : Bool} {reason : String}
    (short : reason.utf8ByteSize ≤ 256) :
    Receipt.Valid { receipt with state := .unknown, cleanupConfirmed, exitCode := none, signal := none,
                                 reason := some reason } where
  version := valid.version
  context := valid.context
  limit := valid.limit
  stdout := valid.stdout
  stderr := valid.stderr
  stored := valid.stored
  reason := by
    rintro s ⟨⟩
    exact short
  status := ⟨rfl, rfl⟩
  active := by rintro ⟨⟩
  ended := by rintro (same | same | same) <;> cases same
  cancelled := by rintro ⟨⟩

end HudsonSandbox.GuestModel
