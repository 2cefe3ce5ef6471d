import HudsonSandbox.Client.Transport
import HudsonSandbox.Library.Turns
import HudsonSandbox.Protocol.GuestModel

/-!
# Downloads

The client reads a capture range by range, each where the one before ended, and keeps the file only if its
size and digest are the declared ones. Whatever the server answers, the loop ends.
-/

namespace HudsonSandbox.Client
open Checked GuestModel

structure FileCaptureResponse where
  capture : String
  size : ℕ
  sha256 : String
  expiresUnixMs : ℤ
  chunkSize : ℕ
  simulated : Bool
  guestReported : Bool
  deriving DecidableEq

/-- What one call meets: the reply, and whether its bytes could be written. -/
structure Turn where
  reply : Except Error Response
  written : Bool

/-- A server answers the calls it gets one after another; the offset is what a call asks for. -/
abbrev Server := ℕ → ℕ → Turn

structure Progress where
  bytes : List UInt8 := []
  offset : ℕ := 0
  eof : Bool := false
  deriving DecidableEq

def round (capture : FileCaptureResponse) (turn : Turn) (self : Progress) : Except Error Progress := do
  let chunk ← binary turn.reply "file" self.offset 32768
  ensure (chunk.size = capture.size ∧ chunk.sha256 = some capture.sha256 ∧ chunk.simulated = capture.simulated)
    .integrity
  ensure (turn.written = true) .file
  pure { bytes := self.bytes ++ chunk.bytes, offset := chunk.nextOffset, eof := chunk.eof }

/-- The `n`th call. -/
def call (capture : FileCaptureResponse) (server : Server) (n : ℕ) (self : Progress) : Except Error (Progress × Bool) := do
  let next ← round capture (server n self.offset) self
  pure (next, next.eof)

def finish (sha256 : List UInt8 → Digest) (capture : FileCaptureResponse) (self : Progress) :
    Except Error (List UInt8) := do
  ensure (self.offset = capture.size ∧ String.ofList (Text.hex (sha256 self.bytes).toList) = capture.sha256) .integrity
  pure self.bytes

def FileCaptureResponse.accepted (capture : FileCaptureResponse) : Prop :=
  capture.size ≤ 8388608 ∧ capture.chunkSize = 32768 ∧ capture.guestReported = true ∧ validSha capture.sha256

instance (capture : FileCaptureResponse) : Decidable capture.accepted :=
  inferInstanceAs (Decidable (_ ∧ _ ∧ _ ∧ _))

/-- The bytes of the file, or why it is not kept. -/
def downloadCapture (sha256 : List UInt8 → Digest) (capture : FileCaptureResponse) (server : Server) (fuel : ℕ) :
    Option (Except Error (List UInt8)) :=
  if capture.accepted then
    (Turns.loop (call capture server) fuel 0 {}).map fun result => result.bind fun ended => finish sha256 capture ended.1
  else some (.error .protocol)

variable {capture : FileCaptureResponse} {turn : Turn} {server : Server} {sha256 : List UInt8 → Digest}

/-- What was written ends where the next range starts. -/
def Level (self : Progress) : Prop := self.bytes.length = self.offset

theorem round_ok {self next : Progress} (level : Level self) (ran : round capture turn self = .ok next) :
    Level next ∧ next.offset ≤ capture.size ∧ (next.eof = true ∨ self.offset < next.offset) := by
  obtain ⟨chunk, taken, ran⟩ := bind_ok.mp ran
  obtain ⟨same, ran⟩ := seq_ok.mp ran
  obtain ⟨_, ran⟩ := seq_ok.mp ran
  cases pure_ok.mp ran
  have taken := binary_ok taken
  have size := (ensure_ok.mp same).1
  have within := taken.within
  have next := taken.next
  refine ⟨?_, ?_, ?_⟩
  · show (self.bytes ++ chunk.bytes).length = chunk.nextOffset
    rw [List.length_append, level, next]
  · show chunk.nextOffset ≤ capture.size
    omega
  · rcases taken.moves with last | some_
    · exact .inl last
    · have longer := List.length_pos_iff.mpr some_
      apply Or.inr
      show self.offset < chunk.nextOffset
      omega

/-- Every call that is not the last moves the offset towards the size. -/
theorem call_advances (capture : FileCaptureResponse) (server : Server) :
    Turns.Advances (call capture server) (fun _ self => Level self ∧ self.offset ≤ capture.size)
      (fun self => capture.size - self.offset) := by
  intro n self next last inv ran
  obtain ⟨level, within⟩ := inv
  obtain ⟨reached, went, same⟩ := bind_ok.mp ran
  cases pure_ok.mp same
  obtain ⟨flat, inside, moves⟩ := round_ok level went
  refine ⟨⟨flat, inside⟩, ?_⟩
  by_cases last : next.eof = true
  · exact .inl last
  · apply Or.inr
    have further := moves.resolve_left last
    show capture.size - next.offset < capture.size - self.offset
    omega

/-- Whatever the server answers, the download ends, after at most one call for each byte and one more. -/
theorem downloadCapture_ends (sha256 : List UInt8 → Digest) (capture : FileCaptureResponse) (server : Server) :
    ∃ result, ∀ fuel, capture.size < fuel → downloadCapture sha256 capture server fuel = some result := by
  unfold downloadCapture
  by_cases accepted : capture.accepted
  · have start : Level {} ∧ 0 ≤ capture.size := ⟨rfl, Nat.zero_le _⟩
    obtain ⟨result, ended⟩ := @Turns.Advances.result _ _ _ _ _ (call_advances capture server) 0 {} start
    refine ⟨result.bind fun last => finish sha256 capture last.1, ?_⟩
    intro fuel enough
    rw [if_pos accepted, ended fuel enough]
    rfl
  · refine ⟨.error .protocol, ?_⟩
    intro fuel _
    rw [if_neg accepted]

/-- The bytes that are kept have the declared size and digest. -/
theorem downloadCapture_ok {fuel : ℕ} {bytes : List UInt8}
    (kept : downloadCapture sha256 capture server fuel = some (.ok bytes)) :
    bytes.length = capture.size ∧ String.ofList (Text.hex (sha256 bytes).toList) = capture.sha256 := by
  unfold downloadCapture at kept
  split at kept
  next =>
    obtain ⟨result, ended, kept⟩ := Option.map_eq_some_iff.mp kept
    obtain ⟨last, same, kept⟩ := bind_ok.mp kept
    obtain ⟨whole, same'⟩ := seq_ok.mp kept
    cases pure_ok.mp same'
    rw [same] at ended
    have start : Level {} ∧ 0 ≤ capture.size := ⟨rfl, Nat.zero_le _⟩
    obtain ⟨⟨level, _⟩, _⟩ := (call_advances capture server).ended start ended
    obtain ⟨size, digest⟩ := ensure_ok.mp whole
    exact ⟨level.trans size, digest⟩
  next => cases kept

end HudsonSandbox.Client
