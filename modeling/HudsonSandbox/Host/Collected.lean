import HudsonSandbox.Host.Archive
import HudsonSandbox.Library.Text
import HudsonSandbox.Library.Turns
import HudsonSandbox.Library.Utf8
import HudsonSandbox.Protocol.Display

/-!
# Collecting a command's output

The host reads both streams from the guest, chunk after chunk, until each has the length that the final
receipt states. The guest may answer anything: a chunk that does not fit the receipt ends the collection, and
one that fits brings it nearer to its end.
-/

namespace HudsonSandbox.Host.Collected
open Checked LiveOutput GuestModel Output

def MAX_CHUNK : ℕ := 32 * 1024

/-- A chunk as the guest sends it, with nothing checked yet. -/
structure OutputChunk where
  operationId : String
  stream : ℤ
  offset : ℕ
  data : List UInt8
  nextOffset : ℕ
  atEnd : Bool
  complete : Bool
  deriving DecidableEq

/-- What one read of a stream from an offset meets; nothing when the time for the collection is up. -/
abbrev OutputSource := ℕ → OutputName → ℕ → Option (Except Status OutputChunk)

structure Captured where
  plans : OutputPlans
  stdout : List UInt8
  stderr : List UInt8
  deriving DecidableEq

def timedOut : Status := ⟨.unavailable, "output collection timed out"⟩

def number : OutputName → ℤ
  | .stdout => Stream.stdout.toInt
  | .stderr => Stream.stderr.toInt

def fits (ticket : OutputTicket) (name : OutputName) (stats : GuestModel.Output) (offset : ℕ) (chunk : OutputChunk) :
    Except Status Unit :=
  ensure (chunk.operationId = ticket.owner.operationId.toString ∧ chunk.stream = number name ∧ chunk.offset = offset ∧
    chunk.data.length ≤ MAX_CHUNK ∧ checkedAdd 64 offset chunk.data.length = some chunk.nextOffset ∧
    chunk.nextOffset ≤ stats.stored ∧ chunk.complete = true ∧
    chunk.atEnd = decide (chunk.nextOffset = stats.stored) ∧ (chunk.atEnd = true ∨ chunk.data ≠ []))
    ⟨.failedPrecondition, "guest output does not match final receipt"⟩

/-- The `n`th read. -/
def read (ticket : OutputTicket) (name : OutputName) (stats : GuestModel.Output) (source : OutputSource) (n : ℕ)
    (bytes : List UInt8) : Except Status (List UInt8 × Bool) := do
  let reply ← okOr (source n name bytes.length) timedOut
  let chunk ← reply
  fits ticket name stats bytes.length chunk
  pure (bytes ++ chunk.data, chunk.atEnd)

def plan (sha256 : List UInt8 → Digest) (ticket : OutputTicket) (name : OutputName) (stats : GuestModel.Output)
    (bytes : List UInt8) : OutputPlan :=
  { version := 1, owner := ticket.owner, uploadAttempt := ticket.uploadAttempt, name, size := stats.stored,
    sha256 := Utf8.encode (Text.hex (sha256 bytes).toList), seen := stats.seen, truncated := stats.truncated,
    createdUnixMs := ticket.createdUnixMs, expiresUnixMs := ticket.expiresUnixMs,
    deleteAfterUnixMs := ticket.deleteAfterUnixMs }

/-- One stream, and the number of the read after its last. -/
def stream (ticket : OutputTicket) (name : OutputName) (stats : GuestModel.Output) (source : OutputSource)
    (fuel n : ℕ) : Option (Except Status (List UInt8 × ℕ)) :=
  Turns.loop (read ticket name stats source) fuel n []

/-- The plans of both streams, once their bytes are there. -/
def planned (sha256 : List UInt8 → Digest) (ticket : OutputTicket) (receipt : Receipt) (stdout stderr : List UInt8) :
    Except Status Captured := do
  let plans : OutputPlans :=
    ⟨plan sha256 ticket .stdout receipt.stdout stdout, plan sha256 ticket .stderr receipt.stderr stderr⟩
  validatePlans ticket plans receipt
  pure { plans, stdout, stderr }

/-- Stdout first, then stderr. -/
def streams (sha256 : List UInt8 → Digest) (ticket : OutputTicket) (receipt : Receipt) (source : OutputSource) (fuel : ℕ) :
    Option (Except Status Captured) :=
  match stream ticket .stdout receipt.stdout source fuel 0 with
  | none => none
  | some (.error status) => some (.error status)
  | some (.ok (stdout, n)) =>
    (stream ticket .stderr receipt.stderr source fuel n).map fun result =>
      result.bind fun last => planned sha256 ticket receipt stdout last.1

def collectable (ticket : OutputTicket) (receipt : Receipt) : Except Status Unit := do
  ticket.validate.mapError fun _ => ⟨.invalidArgument, "invalid ticket"⟩
  validateReceipt ticket receipt

def collect (sha256 : List UInt8 → Digest) (ticket : OutputTicket) (receipt : Receipt) (source : OutputSource) (fuel : ℕ) :
    Option (Except Status Captured) :=
  match collectable ticket receipt with
  | .error status => some (.error status)
  | .ok () => streams sha256 ticket receipt source fuel

/-! ### One stream -/

def joined (chunks : List OutputChunk) : List UInt8 := (chunks.map OutputChunk.data).flatten

/-- The chunks that successive reads of a stream brought from the read `n` on, each accepted where the one before
ended. -/
inductive Accepted (ticket : OutputTicket) (name : OutputName) (stats : GuestModel.Output) (source : OutputSource) (n : ℕ) :
    List OutputChunk → Prop
  | none : Accepted ticket name stats source n []
  | next {chunks : List OutputChunk} {c : OutputChunk} (before : Accepted ticket name stats source n chunks)
      (reply : source (n + chunks.length) name (joined chunks).length = some (.ok c))
      (fitting : fits ticket name stats (joined chunks).length c = .ok ()) : Accepted ticket name stats source n (chunks ++ [c])

theorem joined_append (chunks : List OutputChunk) (c : OutputChunk) : joined (chunks ++ [c]) = joined chunks ++ c.data := by
  unfold joined
  rw [List.map_append, List.flatten_append]
  simp

section OneStream
variable {ticket : OutputTicket} {name : OutputName} {stats : GuestModel.Output} {source : OutputSource} {n : ℕ}

/-- What was read so far is what the chunks held, and no more than the receipt says. -/
def Level (ticket : OutputTicket) (name : OutputName) (stats : GuestModel.Output) (source : OutputSource) (start n : ℕ)
    (bytes : List UInt8) : Prop :=
  bytes.length ≤ stats.stored ∧ ∃ chunks, Accepted ticket name stats source start chunks ∧ n = start + chunks.length ∧ bytes = joined chunks

theorem read_ok {bytes bytes' : List UInt8} {last : Bool} (ran : read ticket name stats source n bytes = .ok (bytes', last)) :
    ∃ c, source n name bytes.length = some (.ok c) ∧ fits ticket name stats bytes.length c = .ok () ∧
      bytes' = bytes ++ c.data ∧ bytes'.length ≤ stats.stored ∧
      last = decide (bytes'.length = stats.stored) ∧ (last = true ∨ c.data ≠ []) := by
  obtain ⟨reply, met, ran⟩ := bind_ok.mp ran
  obtain ⟨c, answered, ran⟩ := bind_ok.mp ran
  obtain ⟨fitting, same⟩ := seq_ok.mp ran
  cases pure_ok.mp same
  obtain ⟨_, _, _, _, sum, within, _, last, moves⟩ := ensure_ok.mp fitting
  have next := checkedAdd_eq sum
  have length : (bytes ++ c.data).length = c.nextOffset := by
    rw [List.length_append, next]
  refine ⟨c, ?_, fitting, rfl, ?_, ?_, moves⟩
  · rw [okOr_ok.mp met, answered]
  · rw [length]
    exact within
  · rw [length]
    exact last

/-- A read that is not the last brings at least one byte, so the reads run out. -/
theorem read_advances (ticket : OutputTicket) (name : OutputName) (stats : GuestModel.Output) (source : OutputSource) (start : ℕ) :
    Turns.Advances (read ticket name stats source) (Level ticket name stats source start) fun bytes => stats.stored - bytes.length := by
  intro n bytes bytes' last level ran
  obtain ⟨within, chunks, accepted, count, whole⟩ := level
  obtain ⟨c, reply, fitting, same, inside, ended, moves⟩ := read_ok ran
  constructor
  · refine ⟨inside, chunks ++ [c], ?_, ?_, ?_⟩
    · rw [count, whole] at reply
      rw [whole] at fitting
      exact .next accepted reply fitting
    · rw [List.length_append, List.length_singleton, count, Nat.add_assoc]
    · rw [joined_append, same, whole]
  · cases last with
    | true => exact .inl rfl
    | false =>
      have some_ := moves.resolve_left Bool.false_ne_true
      have longer := List.length_pos_iff.mpr some_
      have length : bytes'.length = bytes.length + c.data.length := by rw [same, List.length_append]
      apply Or.inr
      show stats.stored - bytes'.length < stats.stored - bytes.length
      omega

theorem level_start (start : ℕ) : Level ticket name stats source start start [] :=
  ⟨Nat.zero_le _, [], .none, rfl, rfl⟩

theorem stream_ends (ticket : OutputTicket) (name : OutputName) (stats : GuestModel.Output) (source : OutputSource) (n : ℕ) :
    ∃ result, ∀ fuel, stats.stored < fuel → stream ticket name stats source fuel n = some result := by
  obtain ⟨result, ended⟩ := (read_advances ticket name stats source n).result (level_start n)
  exact ⟨result, ended⟩

/-- A stream that was read is what its chunks held, with the length that the receipt states. -/
theorem stream_ok {fuel m : ℕ} {bytes : List UInt8} (ended : stream ticket name stats source fuel n = some (.ok (bytes, m))) :
    bytes.length = stats.stored ∧ ∃ chunks, Accepted ticket name stats source n chunks ∧ m = n + chunks.length ∧ bytes = joined chunks := by
  obtain ⟨⟨_, chunks, accepted, count, whole⟩, k, before, _, _, ran⟩ := (read_advances ticket name stats source n).ended (level_start n) ended
  obtain ⟨c, _, _, _, _, last, _⟩ := read_ok ran
  exact ⟨of_decide_eq_true last.symm, chunks, accepted, count, whole⟩

end OneStream

/-! ### Both streams -/

section Both
variable {sha256 : List UInt8 → Digest} {ticket : OutputTicket} {receipt : Receipt} {source : OutputSource}

/-- Whatever the guest answers, the collection ends. -/
theorem collect_ends (sha256 : List UInt8 → Digest) (ticket : OutputTicket) (receipt : Receipt) (source : OutputSource) :
    ∃ result, ∀ fuel, max receipt.stdout.stored receipt.stderr.stored < fuel →
      collect sha256 ticket receipt source fuel = some result := by
  unfold collect
  cases collectable ticket receipt with
  | error status => exact ⟨_, fun _ _ => rfl⟩
  | ok _ =>
    obtain ⟨first, ended⟩ := stream_ends ticket .stdout receipt.stdout source 0
    cases first with
    | error status =>
      refine ⟨.error status, ?_⟩
      intro fuel enough
      show streams sha256 ticket receipt source fuel = _
      unfold streams
      rw [ended fuel (by omega)]
    | ok found =>
      obtain ⟨second, ended'⟩ := stream_ends ticket .stderr receipt.stderr source found.2
      refine ⟨second.bind fun last => planned sha256 ticket receipt found.1 last.1, ?_⟩
      intro fuel enough
      show streams sha256 ticket receipt source fuel = _
      unfold streams
      rw [ended fuel (by omega)]
      dsimp only
      rw [ended' fuel (by omega)]
      rfl

/-- The plan of a stream says what its bytes are. -/
structure Describes (sha256 : List UInt8 → Digest) (plan : OutputPlan) (name : OutputName) (stats : GuestModel.Output)
    (bytes : List UInt8) : Prop where
  name : plan.name = name
  size : plan.size = bytes.length
  digest : plan.sha256 = Utf8.encode (Text.hex (sha256 bytes).toList)
  seen : plan.seen = stats.seen
  truncated : plan.truncated = stats.truncated

theorem plan_describes {name : OutputName} {stats : GuestModel.Output} {bytes : List UInt8} (length : bytes.length = stats.stored) :
    Describes sha256 (plan sha256 ticket name stats bytes) name stats bytes :=
  ⟨rfl, length.symm, rfl, rfl, rfl⟩

theorem planned_ok {stdout stderr : List UInt8} {captured : Captured}
    (made : planned sha256 ticket receipt stdout stderr = .ok captured) :
    captured = ⟨⟨plan sha256 ticket .stdout receipt.stdout stdout, plan sha256 ticket .stderr receipt.stderr stderr⟩, stdout, stderr⟩ ∧
      receipt.stdout.stored + receipt.stderr.stored ≤ ticket.outputLimit ∧ receipt.outputLimit = ticket.outputLimit := by
  obtain ⟨valid, same⟩ := seq_ok.mp made
  cases pure_ok.mp same
  obtain ⟨final, valid⟩ := seq_ok.mp valid
  obtain ⟨matching, _⟩ := seq_ok.mp valid
  obtain ⟨_, final⟩ := seq_ok.mp final
  obtain ⟨_, _, _, _, limit, _⟩ := ensure_ok.mp final
  obtain ⟨_, matching⟩ := seq_ok.mp (mapError_ok.mp matching)
  obtain ⟨matching, _⟩ := seq_ok.mp matching
  obtain ⟨_, matching⟩ := seq_ok.mp matching
  obtain ⟨_, matching⟩ := seq_ok.mp matching
  obtain ⟨_, _, _, _, _, _, _, _, _, total⟩ := ensure_ok.mp matching
  exact ⟨rfl, total, limit⟩

/-- Whatever the guest answers, the collection ends; if it succeeds, each stream is what its chunks held in
order, with the length that the receipt states, its plan describes those bytes, and both are within the limit. -/
theorem collects_receipt (sha256 : List UInt8 → Digest) (ticket : OutputTicket) (receipt : Receipt) (source : OutputSource) :
    (∃ result, ∀ fuel, max receipt.stdout.stored receipt.stderr.stored < fuel →
      collect sha256 ticket receipt source fuel = some result) ∧
    ∀ fuel captured, collect sha256 ticket receipt source fuel = some (.ok captured) →
      (∃ chunks, Accepted ticket .stdout receipt.stdout source 0 chunks ∧ captured.stdout = joined chunks ∧
        ∃ chunks', Accepted ticket .stderr receipt.stderr source chunks.length chunks' ∧ captured.stderr = joined chunks') ∧
      captured.stdout.length = receipt.stdout.stored ∧ captured.stderr.length = receipt.stderr.stored ∧
      Describes sha256 captured.plans.stdout .stdout receipt.stdout captured.stdout ∧
      Describes sha256 captured.plans.stderr .stderr receipt.stderr captured.stderr ∧
      captured.stdout.length + captured.stderr.length ≤ ticket.outputLimit ∧ receipt.outputLimit = ticket.outputLimit := by
  refine ⟨collect_ends sha256 ticket receipt source, ?_⟩
  intro fuel captured collected
  unfold collect at collected
  split at collected
  next => cases collected
  next =>
    unfold streams at collected
    split at collected
    next => cases collected
    next => cases collected
    next stdout n first =>
      obtain ⟨second, ended, bound⟩ := Option.map_eq_some_iff.mp collected
      obtain ⟨found, same, made⟩ := bind_ok.mp bound
      rw [same] at ended
      obtain ⟨length, chunks, accepted, count, whole⟩ := stream_ok first
      obtain ⟨length', chunks', accepted', _, whole'⟩ := stream_ok ended
      obtain ⟨captured_, total, limit⟩ := planned_ok made
      rw [Nat.zero_add] at count
      rw [count] at accepted'
      rw [captured_]
      refine ⟨⟨chunks, accepted, whole, chunks', accepted', whole'⟩, length, length', plan_describes length, plan_describes length', ?_, limit⟩
      rw [length, length']
      exact total

end Both

end HudsonSandbox.Host.Collected
