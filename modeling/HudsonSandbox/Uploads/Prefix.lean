import HudsonSandbox.Library.Run
import HudsonSandbox.Uploads.Staging

/-!
# A transfer under any writes

Whatever chunks a transfer is sent, in whatever order and however many of them fail half way, its
staging file holds one prefix within the declared size, and keeps what it acknowledged.
-/

namespace HudsonSandbox.Uploads
open Run Files SupervisorFiles

variable {file : FileEncoding} {sha256 : List UInt8 → BitVec 256} {guest next : Transfers}
  {digest : GuestModel.Digest} {offset : ℕ} {data bytes kept : List UInt8} {receipt : Transfer.Receipt}
  {P : GuestModel.Digest → ℕ → UInt8 → Prop}

/-- A request to the engine, or a new start of it. -/
inductive TransferEvent where
  | request (turn : GuestTurn) (asked : GuestRequest)
  | reopen (flushed : ℕ)

def Transfers.step (file : FileEncoding) (sha256 : List UInt8 → BitVec 256) (self : Transfers) :
    TransferEvent → Transfers
  | .request turn asked => (self.dispatch file sha256 turn asked).1
  | .reopen flushed => self.reopen flushed

/-- A write that offers a byte for a position of the transfer. -/
def TransferEvent.Gives (digest : GuestModel.Digest) (i : ℕ) (byte : UInt8) : TransferEvent → Prop
  | .request _ (.write target offset data) => target = digest ∧ offset ≤ i ∧ data[i - offset]? = some byte
  | _ => False

/-- Writes, questions and new starts; nothing that ends the transfer. -/
def TransferEvent.Writes : TransferEvent → Prop
  | .request _ (.write _ _ _) | .request _ (.inspect _) | .reopen _ => True
  | .request _ _ => False

/-! ### One write -/

/-- What `write_chunk` asks of a chunk before it stores any of it. -/
structure Writable (guest : Transfers) (digest : GuestModel.Digest) (offset : ℕ) (data : List UInt8)
    (receipt : Transfer.Receipt) (bytes : List UInt8) : Prop where
  found : guest.upload digest = some receipt
  held : guest.staged = some bytes
  passes : data ≠ [] ∧ data.length ≤ MAX_CHUNK_BYTES ∧ receipt.state = .staging ∧
    offset + data.length ≤ receipt.upload.size ∧
    Transfers.PrefixCheck receipt.upload.size bytes offset data

theorem Writable.append (writable : Writable guest digest offset data receipt bytes)
    (turn : Transfers.WriteTurn) :
    guest.writeChunk digest offset data turn = guest.append bytes offset data turn := by
  unfold Transfers.writeChunk
  rw [writable.found, writable.held]
  dsimp only
  rw [if_pos writable.passes]

theorem writeChunk_cases (guest : Transfers) (digest : GuestModel.Digest) (offset : ℕ) (data : List UInt8)
    (turn : Transfers.WriteTurn) :
    guest.writeChunk digest offset data turn = (guest, none) ∨
      ∃ receipt bytes, Writable guest digest offset data receipt bytes := by
  unfold Transfers.writeChunk
  split
  next receipt bytes found held =>
    split
    next passes => exact .inr ⟨receipt, bytes, found, held, passes⟩
    · exact .inl rfl
  · exact .inl rfl

/-- A part of the chunk's rest is appended, all of it when the write is answered. -/
theorem append_staged (turn : Transfers.WriteTurn) (contiguous : offset ≤ bytes.length) :
    ∃ rest, rest <+: data.drop (bytes.length - offset) ∧
      (guest.append bytes offset data turn).1.staged = some (bytes ++ rest) ∧
      (guest.append bytes offset data turn).1.acknowledged ≤ max guest.acknowledged (bytes ++ rest).length ∧
      guest.acknowledged ≤ (guest.append bytes offset data turn).1.acknowledged ∧
      (guest.append bytes offset data turn).1.receipt = guest.receipt ∧
      (guest.append bytes offset data turn).1.failed = guest.failed := by
  unfold Transfers.append
  by_cases answered : turn.answered = true
  · dsimp only
    rw [if_pos answered]
    refine ⟨_, List.prefix_refl _, rfl, ?_, le_max_left _ _, rfl, rfl⟩
    rw [Chunks.length_append_drop contiguous]
  · dsimp only
    rw [if_neg answered]
    exact ⟨_, List.take_prefix _ _, rfl, le_max_left _ _, le_rfl, rfl, rfl⟩

/-! ### The staging file -/

/-- The staging file is one prefix of what was given for the transfer, at least as long as what was
acknowledged and at most as long as declared. -/
structure Contiguous (P : GuestModel.Digest → ℕ → UInt8 → Prop) (guest : Transfers) : Prop where
  unacknowledged : guest.receipt = none → guest.acknowledged = 0
  present : ∀ r, guest.receipt = some r → r.state = .staging → guest.staged ≠ none
  covered : ∀ bytes, guest.staged = some bytes → guest.acknowledged ≤ bytes.length
  bounded : ∀ r bytes, guest.receipt = some r → guest.staged = some bytes → bytes.length ≤ r.upload.size
  given : ∀ r bytes, guest.receipt = some r → guest.staged = some bytes →
    ∀ i byte, bytes[i]? = some byte → P r.digest i byte

/-- The bytes a transfer has acknowledged, and still holds. -/
structure Holds (kept : List UInt8) (guest : Transfers) : Prop where
  known : guest.receipt ≠ none
  acknowledged : kept.length ≤ guest.acknowledged
  prefixed : ∀ bytes, guest.staged = some bytes → kept <+: bytes

theorem Contiguous.write (inv : Contiguous P guest)
    (gives : ∀ i byte, offset ≤ i → data[i - offset]? = some byte → P digest i byte)
    (turn : Transfers.WriteTurn) : Contiguous P (guest.writeChunk digest offset data turn).1 := by
  obtain same | ⟨receipt, bytes, writable⟩ := writeChunk_cases guest digest offset data turn
  · rw [same]
    exact inv
  obtain ⟨_, known, named⟩ := upload_eq_some writable.found
  obtain ⟨_, _, _, fits, _, contiguous, _⟩ := writable.passes
  have bounded := inv.bounded receipt bytes known writable.held
  have covered := inv.covered bytes writable.held
  rw [writable.append]
  obtain ⟨rest, part, staged, acknowledged, _, kept, _⟩ :=
    @append_staged guest offset data bytes turn contiguous
  constructor
  · intro fresh
    rw [kept, known] at fresh
    cases fresh
  · intro r _ _
    rw [staged]
    exact Option.some_ne_none _
  · intro all held
    rw [staged] at held
    cases held
    have grows : bytes.length ≤ (bytes ++ rest).length := by simp
    omega
  · intro r all held stored
    rw [kept, known] at held
    rw [staged] at stored
    cases held
    cases stored
    have short := part.length_le
    rw [List.length_drop] at short
    rw [List.length_append]
    omega
  · intro r all held stored i byte found
    rw [kept, known] at held
    rw [staged] at stored
    cases held
    cases stored
    obtain old | ⟨reached, new⟩ := Chunks.appended_at contiguous part found
    · exact inv.given receipt bytes known writable.held i byte old
    · rw [named]
      exact gives i byte reached new

theorem Holds.write (holds : Holds kept guest) (turn : Transfers.WriteTurn) :
    Holds kept (guest.writeChunk digest offset data turn).1 := by
  obtain same | ⟨receipt, bytes, writable⟩ := writeChunk_cases guest digest offset data turn
  · rw [same]
    exact holds
  obtain ⟨_, _, _, _, _, contiguous, _⟩ := writable.passes
  rw [writable.append]
  obtain ⟨rest, _, staged, _, grows, same, _⟩ := @append_staged guest offset data bytes turn contiguous
  constructor
  · rw [same]
    exact holds.known
  · exact holds.acknowledged.trans grows
  · intro all held
    rw [staged] at held
    cases held
    exact (holds.prefixed bytes writable.held).trans (List.prefix_append _ _)

/-! ### Requests that write nothing -/

theorem save_staged (self : Transfers) (receipt : Transfer.Receipt) (outcome : Outcome) :
    (self.save receipt outcome).1.staged = self.staged := by
  cases outcome with
  | done => rfl
  | lost => rfl
  | kept => rfl

/-- A commit leaves the staging file as it is or takes it away. -/
theorem commit_staged (turn : Transfers.CommitTurn) :
    (guest.commit sha256 digest turn).1.staged = guest.staged ∨
      (guest.commit sha256 digest turn).1.staged = none := by
  unfold Transfers.commit
  split
  · exact .inl rfl
  · split
    · exact .inl rfl
    split
    · cases turn.intent with
      | lost => exact .inl rfl
      | kept => exact .inl rfl
      | done =>
        unfold Transfers.published
        cases turn.publish with
        | done => exact .inr (save_staged _ _ _)
        | lost => exact .inl (save_staged _ _ _)
        | kept => exact .inr (save_staged _ _ _)
    · exact .inl rfl

theorem abort_staged (turn : Transfers.AbortTurn) :
    (guest.abort digest turn).1.staged = guest.staged ∨ (guest.abort digest turn).1.staged = none := by
  unfold Transfers.abort
  split
  · exact .inl rfl
  next receipt _ =>
    split
    · exact .inl rfl
    dsimp only
    have kept : (guest.save { receipt with state := .aborted } turn.save).1.staged = guest.staged :=
      save_staged _ _ _
    split
    · exact .inl kept
    split
    · exact .inr rfl
    · exact .inl kept

theorem ends_staged {turn : GuestTurn} {asked : GuestRequest}
    (ends : (∃ digest, asked = .commit digest) ∨ ∃ digest, asked = .abort digest) :
    (guest.dispatch file sha256 turn asked).1.staged = guest.staged ∨
      (guest.dispatch file sha256 turn asked).1.staged = none := by
  obtain ⟨digest, rfl⟩ | ⟨digest, rfl⟩ := ends
  · exact commit_staged turn.commit
  · exact abort_staged turn.abort

theorem Contiguous.dispatch (inv : Contiguous P guest) (turn : GuestTurn) (asked : GuestRequest)
    (gives : ∀ digest i byte, (TransferEvent.request turn asked).Gives digest i byte → P digest i byte) :
    Contiguous P (guest.dispatch file sha256 turn asked).1 := by
  by_cases writes : ∃ digest offset data, asked = .write digest offset data
  · obtain ⟨digest, offset, data, rfl⟩ := writes
    exact inv.write (fun i byte reached found => gives digest i byte ⟨rfl, reached, found⟩) turn.write
  have turned := dispatch_turned file sha256 guest turn asked
  have leaves := @ends_staged file sha256 guest turn asked
  generalize (guest.dispatch file sha256 turn asked).1 = next at turned leaves
  cases turned with
  | still receipt staged acknowledged =>
    constructor
    · rw [receipt, acknowledged]
      exact inv.unacknowledged
    · rw [receipt, staged]
      exact inv.present
    · rw [staged, acknowledged]
      exact inv.covered
    · rw [receipt, staged]
      exact inv.bounded
    · rw [receipt, staged]
      exact inv.given
  | admitted fresh staged acknowledged named =>
    have none := acknowledged.trans (inv.unacknowledged fresh)
    constructor
    · intro _
      exact none
    · intro _ _ _
      rw [staged]
      exact Option.some_ne_none _
    · intro bytes _
      rw [none]
      exact Nat.zero_le _
    · intro r bytes _ held
      rw [staged] at held
      cases held
      exact Nat.zero_le _
    · intro r bytes _ held i byte found
      rw [staged] at held
      cases held
      simp at found
  | appended => exact absurd ⟨_, _, _, rfl⟩ writes
  | left ends held ended moved acknowledged =>
    have before : ∀ bytes, next.staged = some bytes → guest.staged = some bytes := by
      intro bytes stored
      obtain same | gone := leaves ends
      · exact same.symm.trans stored
      · cases gone.symm.trans stored
    constructor
    · intro fresh
      cases moved.symm.trans fresh
    · intro r stored staging
      cases moved.symm.trans stored
      exact absurd staging ended
    · intro bytes stored
      rw [acknowledged]
      exact inv.covered bytes (before bytes stored)
    · intro r bytes known stored
      cases moved.symm.trans known
      have bounded := inv.bounded _ bytes held (before bytes stored)
      exact bounded
    · intro r bytes known stored
      cases moved.symm.trans known
      have given := inv.given _ bytes held (before bytes stored)
      exact given

theorem Holds.dispatch (holds : Holds kept guest) (turn : GuestTurn) (asked : GuestRequest) :
    Holds kept (guest.dispatch file sha256 turn asked).1 := by
  by_cases writes : ∃ digest offset data, asked = .write digest offset data
  · obtain ⟨digest, offset, data, rfl⟩ := writes
    exact holds.write turn.write
  have turned := dispatch_turned file sha256 guest turn asked
  have leaves := @ends_staged file sha256 guest turn asked
  have grown : Grown guest (guest.dispatch file sha256 turn asked).1 := turned.grown
  refine ⟨grown.receipt holds.known, holds.acknowledged.trans grown.acknowledged, ?_⟩
  generalize (guest.dispatch file sha256 turn asked).1 = next at turned leaves
  intro bytes stored
  cases turned with
  | still receipt staged acknowledged => exact holds.prefixed bytes (staged.symm.trans stored)
  | admitted fresh => exact absurd fresh holds.known
  | appended => exact absurd ⟨_, _, _, rfl⟩ writes
  | left ends held ended moved acknowledged =>
    obtain same | gone := leaves ends
    · exact holds.prefixed bytes (same.symm.trans stored)
    · cases gone.symm.trans stored

/-! ### New starts -/

/-- What a new start may find of the staging file. -/
theorem reopen_staged {flushed : ℕ} (stored : (guest.reopen flushed).staged = some bytes) :
    ∃ before, guest.staged = some before ∧
      (bytes = before ∨ bytes = before.take (max flushed guest.acknowledged)) := by
  unfold Transfers.reopen at stored
  split at stored
  · cases stored
  next receipt _ =>
    cases state : receipt.state with
    | staging =>
      rw [state] at stored
      dsimp only at stored
      split at stored
      · exact ⟨bytes, stored, .inl rfl⟩
      next before held =>
        cases stored
        exact ⟨before, held, .inr rfl⟩
    | commitIntent =>
      rw [state] at stored
      cases stored
    | committed =>
      rw [state] at stored
      cases stored
    | unknown =>
      rw [state] at stored
      cases stored
    | aborted =>
      rw [state] at stored
      cases stored

/-- A new start keeps the receipt, whose open commit becomes uncertain. -/
theorem reopen_receipt (flushed : ℕ) :
    (guest.reopen flushed).receipt = guest.receipt ∨
      ∃ r, guest.receipt = some r ∧ (guest.reopen flushed).receipt = some { r with state := .unknown } := by
  unfold Transfers.reopen
  split
  · exact .inl rfl
  next receipt held =>
    cases receipt.state with
    | staging =>
      dsimp only
      split
      · exact .inl rfl
      · exact .inl rfl
    | commitIntent => exact .inr ⟨receipt, held, rfl⟩
    | committed => exact .inl rfl
    | unknown => exact .inl rfl
    | aborted => exact .inl rfl

theorem reopen_acknowledged (flushed : ℕ) : (guest.reopen flushed).acknowledged = guest.acknowledged := by
  unfold Transfers.reopen
  split
  · rfl
  next receipt _ =>
    cases receipt.state with
    | staging =>
      dsimp only
      split
      · rfl
      · rfl
    | commitIntent => rfl
    | committed => rfl
    | unknown => rfl
    | aborted => rfl

/-- A transfer that stages goes on staging after a new start, and is whole again. -/
theorem reopen_staging (known : guest.receipt = some receipt) (staging : receipt.state = .staging)
    (held : guest.staged = some bytes) (flushed : ℕ) :
    guest.reopen flushed =
      { guest with staged := some (bytes.take (max flushed guest.acknowledged)), failed := false } := by
  unfold Transfers.reopen
  rw [known]
  dsimp only
  rw [staging, held]

theorem Contiguous.reopen (inv : Contiguous P guest) (flushed : ℕ) : Contiguous P (guest.reopen flushed) := by
  have past : ∀ r, (guest.reopen flushed).receipt = some r →
      ∃ earlier, guest.receipt = some earlier ∧ earlier.digest = r.digest ∧ earlier.upload = r.upload := by
    intro r held
    obtain same | ⟨earlier, known, moved⟩ := @reopen_receipt guest flushed
    · exact ⟨r, same.symm.trans held, rfl, rfl⟩
    · cases moved.symm.trans held
      exact ⟨earlier, known, rfl, rfl⟩
  constructor
  · intro fresh
    rw [reopen_acknowledged]
    apply inv.unacknowledged
    by_contra known
    exact (reopen_grown flushed).receipt known fresh
  · intro r held staging
    obtain same | ⟨earlier, _, moved⟩ := @reopen_receipt guest flushed
    · have known : guest.receipt = some r := same.symm.trans held
      obtain ⟨bytes, stored⟩ := Option.ne_none_iff_exists'.mp (inv.present r known staging)
      rw [reopen_staging known staging stored]
      exact Option.some_ne_none _
    · cases moved.symm.trans held
      cases staging
  · intro bytes stored
    obtain ⟨before, held, rfl | rfl⟩ := reopen_staged stored
    · rw [reopen_acknowledged]
      exact inv.covered _ held
    · have covered := inv.covered before held
      rw [reopen_acknowledged, List.length_take]
      omega
  · intro r bytes held stored
    obtain ⟨earlier, known, _, upload⟩ := past r held
    obtain ⟨before, was, rfl | rfl⟩ := reopen_staged stored
    · rw [← upload]
      exact inv.bounded earlier _ known was
    · have bounded := inv.bounded earlier before known was
      rw [← upload, List.length_take]
      omega
  · intro r bytes held stored i byte found
    obtain ⟨earlier, known, digest, _⟩ := past r held
    rw [← digest]
    obtain ⟨before, was, rfl | rfl⟩ := reopen_staged stored
    · exact inv.given earlier _ known was i byte found
    · apply inv.given earlier before known was i byte
      rw [List.getElem?_take] at found
      split at found
      · exact found
      · cases found

theorem Holds.reopen (holds : Holds kept guest) (flushed : ℕ) : Holds kept (guest.reopen flushed) := by
  constructor
  · exact (reopen_grown flushed).receipt holds.known
  · rw [reopen_acknowledged]
    exact holds.acknowledged
  · intro bytes stored
    obtain ⟨before, held, rfl | rfl⟩ := reopen_staged stored
    · exact holds.prefixed _ held
    · apply List.prefix_take_iff.mpr
      refine ⟨holds.prefixed before held, ?_⟩
      exact holds.acknowledged.trans (le_max_right _ _)

/-! ### Runs -/

theorem Contiguous.step (inv : Contiguous P guest) (event : TransferEvent)
    (gives : ∀ digest i byte, event.Gives digest i byte → P digest i byte) :
    Contiguous P (guest.step file sha256 event) := by
  cases event with
  | request turn asked => exact inv.dispatch turn asked gives
  | reopen flushed => exact inv.reopen flushed

theorem Holds.step (holds : Holds kept guest) (event : TransferEvent) :
    Holds kept (guest.step file sha256 event) := by
  cases event with
  | request turn asked => exact holds.dispatch turn asked
  | reopen flushed => exact holds.reopen flushed

/-- The bytes that some write of a run offered. -/
def Offered (events : List TransferEvent) (digest : GuestModel.Digest) (i : ℕ) (byte : UInt8) : Prop :=
  ∃ event ∈ events, event.Gives digest i byte

theorem Contiguous.run (inv : Contiguous P guest) (events : List TransferEvent)
    (gives : ∀ digest i byte, Offered events digest i byte → P digest i byte) :
    Contiguous P (run (Transfers.step file sha256) guest events) := by
  induction events generalizing guest with
  | nil => exact inv
  | cons event rest ih =>
    rw [run_cons]
    apply ih
    · apply inv.step
      intro digest i byte given
      exact gives digest i byte ⟨event, List.mem_cons_self, given⟩
    · intro digest i byte given
      obtain ⟨other, member, given⟩ := given
      exact gives digest i byte ⟨other, List.mem_cons_of_mem _ member, given⟩

theorem fresh_contiguous (context : GuestModel.Context) : Contiguous P (.fresh context) := by
  constructor
  · intro _
    rfl
  · intro _ held
    cases held
  · intro _ held
    cases held
  · intro _ _ held
    cases held
  · intro _ _ held
    cases held

variable (file sha256) in
theorem run_contiguous (context : GuestModel.Context) (events : List TransferEvent) :
    Contiguous (Offered events) (run (Transfers.step file sha256) (.fresh context) events) := by
  apply (fresh_contiguous context).run
  intro digest i byte given
  exact given

theorem Holds.run (holds : Holds kept guest) (events : List TransferEvent) :
    Holds kept (run (Transfers.step file sha256) guest events) := by
  have keeps : ∀ (s : Transfers) event, Holds kept s → Holds kept (s.step file sha256 event) :=
    fun _ event holds => holds.step event
  exact run_invariant keeps holds

/-! ### Answers -/

theorem ofStored_stored {answer : Option ℕ} {n : ℕ} :
    GuestAnswer.ofStored answer = .stored n ↔ answer = some n := by
  cases answer with
  | none => simp [GuestAnswer.ofStored]
  | some m => simp [GuestAnswer.ofStored]

/-- A write is answered with the length of the whole file, the chunk in its place. -/
theorem writeChunk_stored {turn : Transfers.WriteTurn} {n : ℕ} (inv : Contiguous P guest)
    (answer : (guest.writeChunk digest offset data turn).2 = some n) :
    ∃ bytes, (guest.writeChunk digest offset data turn).1.staged = some bytes ∧ bytes.length = n ∧
      (guest.writeChunk digest offset data turn).1.acknowledged = n ∧
      (bytes.drop offset).take data.length = data ∧
      Holds bytes (guest.writeChunk digest offset data turn).1 := by
  obtain same | ⟨receipt, bytes, writable⟩ := writeChunk_cases guest digest offset data turn
  · rw [same] at answer
    cases answer
  obtain ⟨_, known, _⟩ := upload_eq_some writable.found
  obtain ⟨_, _, _, _, _, contiguous, overlap⟩ := writable.passes
  have covered := inv.covered bytes writable.held
  have length := Chunks.length_append_drop contiguous data
  rw [writable.append] at answer ⊢
  unfold Transfers.append at answer ⊢
  dsimp only at answer ⊢
  by_cases answered : turn.answered = true
  · rw [if_pos answered] at answer
    cases answer
    rw [if_pos answered]
    have whole : max guest.acknowledged (max bytes.length (offset + data.length)) =
        max bytes.length (offset + data.length) := by omega
    refine ⟨_, rfl, length, whole, Chunks.stored_at contiguous overlap, ?_, ?_, ?_⟩
    · show guest.receipt ≠ none
      rw [known]
      exact Option.some_ne_none _
    · show (bytes ++ data.drop (bytes.length - offset)).length ≤ _
      rw [length]
      exact le_max_right _ _
    · intro all held
      cases held
      exact List.prefix_refl _
  · rw [if_neg answered] at answer
    cases answer

/-- Bytes of the content that the transfer was given are accepted from any offset it covers. -/
theorem Contiguous.resumes {content : ℕ → UInt8} (inv : Contiguous P guest)
    (known : guest.receipt = some receipt) (staging : receipt.state = .staging) (healthy : guest.failed = false)
    (agrees : ∀ i byte, P receipt.digest i byte → byte = content i) (reached : offset ≤ guest.acknowledged)
    (nonempty : data ≠ []) (short : data.length ≤ MAX_CHUNK_BYTES)
    (fits : offset + data.length ≤ receipt.upload.size)
    (same : ∀ i byte, data[i]? = some byte → byte = content (offset + i)) :
    ∃ bytes, Writable guest receipt.digest offset data receipt bytes := by
  obtain ⟨bytes, held⟩ := Option.ne_none_iff_exists'.mp (inv.present receipt known staging)
  have covered := inv.covered bytes held
  have found : guest.upload receipt.digest = some receipt := by
    unfold Transfers.upload
    rw [if_neg (by simp [healthy]), known]
    simp
  have stands : ∀ i byte, bytes[i]? = some byte → byte = content i := by
    intro i byte stored
    apply agrees
    exact inv.given receipt bytes known held i byte stored
  refine ⟨bytes, found, held, nonempty, short, staging, fits, ?_, ?_, ?_⟩
  · exact inv.bounded receipt bytes known held
  · omega
  · exact Chunks.overlap_of_content stands same

/-- Writes and new starts never end a transfer nor fence its engine. -/
theorem writes_lasts (inv : Contiguous P guest) (known : guest.receipt = some receipt)
    (staging : receipt.state = .staging) (healthy : guest.failed = false) {event : TransferEvent}
    (writes : event.Writes) :
    (guest.step file sha256 event).receipt = some receipt ∧ (guest.step file sha256 event).failed = false := by
  cases event with
  | reopen flushed =>
    obtain ⟨bytes, held⟩ := Option.ne_none_iff_exists'.mp (inv.present receipt known staging)
    show (guest.reopen flushed).receipt = _ ∧ (guest.reopen flushed).failed = _
    rw [reopen_staging known staging held]
    exact ⟨known, rfl⟩
  | request turn asked =>
    cases asked with
    | inspect digest => exact ⟨known, healthy⟩
    | write digest offset data =>
      show (guest.writeChunk digest offset data turn.write).1.receipt = _ ∧
        (guest.writeChunk digest offset data turn.write).1.failed = _
      obtain same | ⟨_, bytes, writable⟩ := writeChunk_cases guest digest offset data turn.write
      · rw [same]
        exact ⟨known, healthy⟩
      · obtain ⟨_, _, _, _, _, contiguous, _⟩ := writable.passes
        rw [writable.append]
        obtain ⟨_, _, _, _, _, receipt, failed⟩ := @append_staged guest offset data bytes turn.write contiguous
        exact ⟨receipt.trans known, failed.trans healthy⟩
    | begin upload => cases writes
    | commit digest => cases writes
    | abort digest => cases writes

theorem writes_last (inv : Contiguous P guest) (known : guest.receipt = some receipt)
    (staging : receipt.state = .staging) (healthy : guest.failed = false) (more : List TransferEvent)
    (writes : ∀ event ∈ more, event.Writes) :
    (run (Transfers.step file sha256) guest more).receipt = some receipt ∧
      (run (Transfers.step file sha256) guest more).failed = false := by
  have everything : Contiguous (fun _ _ _ => True) guest :=
    ⟨inv.unacknowledged, inv.present, inv.covered, inv.bounded, fun _ _ _ _ _ _ _ => trivial⟩
  clear inv
  induction more generalizing guest with
  | nil => exact ⟨known, healthy⟩
  | cons event rest ih =>
    rw [run_cons]
    obtain ⟨known', healthy'⟩ :=
      @writes_lasts file sha256 _ _ _ everything known staging healthy event (writes event List.mem_cons_self)
    apply ih known' healthy'
    · intro other member
      exact writes other (List.mem_cons_of_mem _ member)
    · apply everything.step
      intro _ _ _ _
      trivial

/-- A commit does anything at all only with a file of the declared size and digest. -/
theorem commit_exact {turn : Transfers.CommitTurn} (changes : (guest.commit sha256 digest turn).1 ≠ guest) :
    ∃ r bytes, guest.receipt = some r ∧ r.digest = digest ∧ r.state = .staging ∧ guest.staged = some bytes ∧
      bytes.length = r.upload.size ∧ sha256 bytes = r.upload.sha256 := by
  unfold Transfers.commit at changes
  split at changes
  · exact absurd rfl changes
  next receipt found =>
    obtain ⟨_, known, named⟩ := upload_eq_some found
    split at changes
    · exact absurd rfl changes
    next staging =>
      split at changes
      next exactly =>
        obtain ⟨_, bytes, held, size, digest⟩ := exactly
        exact ⟨receipt, bytes, known, named, not_not.mp staging, Option.mem_def.mp held, size, digest⟩
      · exact absurd rfl changes

/-- What holds of a transfer once events brought it to a state, and what holds of it from there on. -/
structure SafeTransfer (file : FileEncoding) (sha256 : List UInt8 → BitVec 256)
    (events : List TransferEvent) (s : Transfers) : Prop where
  staged : ∀ r, s.receipt = some r → r.state = .staging → ∃ bytes, s.staged = some bytes ∧
    s.acknowledged ≤ bytes.length ∧ bytes.length ≤ r.upload.size ∧
    ∀ i byte, bytes[i]? = some byte → Offered events r.digest i byte
  acknowledged : ∀ turn digest offset data n,
    (s.dispatch file sha256 turn (.write digest offset data)).2 = .stored n →
    let next := (s.dispatch file sha256 turn (.write digest offset data)).1
    ∃ bytes, next.staged = some bytes ∧ bytes.length = n ∧ next.acknowledged = n ∧
      (bytes.drop offset).take data.length = data ∧
      ∀ more later, (run (Transfers.step file sha256) next more).staged = some later → bytes <+: later
  resumes : ∀ (content : ℕ → UInt8) r, s.receipt = some r → r.state = .staging → s.failed = false →
    (∀ i byte, Offered events r.digest i byte → byte = content i) →
    ∀ offset data, offset ≤ s.acknowledged → data ≠ [] → data.length ≤ MAX_CHUNK_BYTES →
    offset + data.length ≤ r.upload.size → (∀ i byte, data[i]? = some byte → byte = content (offset + i)) →
    ∀ turn : GuestTurn, turn.write.answered = true →
    ∃ n, (s.dispatch file sha256 turn (.write r.digest offset data)).2 = .stored n ∧ offset + data.length ≤ n
  lasts : ∀ r, s.receipt = some r → r.state = .staging → s.failed = false →
    ∀ more, (∀ event ∈ more, event.Writes) →
    (run (Transfers.step file sha256) s more).receipt = some r ∧
      (run (Transfers.step file sha256) s more).failed = false
  commits : ∀ turn digest, let next := (s.dispatch file sha256 turn (.commit digest)).1
    next ≠ s → (next.staged = s.staged ∨ next.staged = none) ∧
      ∃ r bytes, s.receipt = some r ∧ r.digest = digest ∧ r.state = .staging ∧ s.staged = some bytes ∧
        bytes.length = r.upload.size ∧ sha256 bytes = r.upload.sha256

/-- Whatever is written, and however much of it is stored: the staging file is one prefix within the
declared size, what was acknowledged of it stays, the same bytes are accepted again from there, and a
commit acts on nothing but the declared content. -/
theorem transfer_safe (file : FileEncoding) (sha256 : List UInt8 → BitVec 256) (context : GuestModel.Context)
    (events : List TransferEvent) :
    SafeTransfer file sha256 events (run (Transfers.step file sha256) (.fresh context) events) := by
  have inv : Contiguous (Offered events) (run (Transfers.step file sha256) (.fresh context) events) :=
    run_contiguous file sha256 context events
  generalize run (Transfers.step file sha256) (.fresh context) events = s at inv
  constructor
  · intro r known staging
    obtain ⟨bytes, held⟩ := Option.ne_none_iff_exists'.mp (inv.present r known staging)
    exact ⟨bytes, held, inv.covered bytes held, inv.bounded r bytes known held, inv.given r bytes known held⟩
  · intro turn digest offset data n answer
    have stored : GuestAnswer.ofStored (s.writeChunk digest offset data turn.write).2 = .stored n := answer
    have answer : (s.writeChunk digest offset data turn.write).2 = some n := ofStored_stored.mp stored
    obtain ⟨bytes, held, length, acknowledged, placed, holds⟩ := writeChunk_stored inv answer
    refine ⟨bytes, held, length, acknowledged, placed, ?_⟩
    intro more later stored
    exact (holds.run more).prefixed later stored
  · intro content r known staging healthy agrees offset data reached nonempty short fits same turn answered
    obtain ⟨bytes, writable⟩ := inv.resumes known staging healthy agrees reached nonempty short fits same
    refine ⟨max bytes.length (offset + data.length), ?_, le_max_right _ _⟩
    show GuestAnswer.ofStored (s.writeChunk r.digest offset data turn.write).2 = _
    rw [writable.append]
    unfold Transfers.append
    dsimp only
    rw [if_pos answered]
    rfl
  · intro r known staging healthy more writes
    exact writes_last inv known staging healthy more writes
  · intro turn digest next changes
    exact ⟨commit_staged turn.commit, commit_exact changes⟩

end HudsonSandbox.Uploads
