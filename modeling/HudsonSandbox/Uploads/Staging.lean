import HudsonSandbox.Library.Chunks
import HudsonSandbox.Uploads.Later

/-!
# What the guest holds of an upload

The guest's staging file is a prefix of the selected source, covers everything it acknowledged, and
is never more than one chunk ahead of the cursor in the database.
-/

namespace HudsonSandbox.Uploads
open Checked Files SupervisorFiles FileSources

variable {file : FileEncoding} {sha256 : List UInt8 → BitVec 256} {content : SourceRef → List UInt8}
  {row row' : Progress} {guest next : Transfers} {offset : ℕ} {data bytes : List UInt8}

/-! ### The steps of the guest -/

/-- What serving a request does to the receipt and the staging file. -/
inductive Turned (file : FileEncoding) (guest : Transfers) : GuestRequest → Transfers → Prop where
  | still {asked : GuestRequest} {next : Transfers} (receipt : next.receipt = guest.receipt)
      (staged : next.staged = guest.staged) (acknowledged : next.acknowledged = guest.acknowledged) :
      Turned file guest asked next
  | admitted {upload : Upload} {next : Transfers} (fresh : guest.receipt = none)
      (staged : next.staged = some []) (acknowledged : next.acknowledged = guest.acknowledged)
      (named : ∀ r ∈ next.receipt, r.upload = upload ∧ r.digest = file.sha256 upload ∧ r.state = .staging) :
      Turned file guest (.begin upload) next
  | appended {digest : GuestModel.Digest} {offset : ℕ} {data bytes rest : List UInt8} {next : Transfers}
      (known : guest.receipt ≠ none) (held : guest.staged = some bytes) (contiguous : offset ≤ bytes.length)
      (part : rest <+: data.drop (bytes.length - offset)) (receipt : next.receipt = guest.receipt)
      (staged : next.staged = some (bytes ++ rest)) (grows : guest.acknowledged ≤ next.acknowledged)
      (covered : next.acknowledged ≤ max guest.acknowledged (bytes ++ rest).length) :
      Turned file guest (.write digest offset data) next
  | left {asked : GuestRequest} {receipt : Transfer.Receipt} {state : Transfer.State} {next : Transfers}
      (ends : (∃ digest, asked = .commit digest) ∨ ∃ digest, asked = .abort digest)
      (held : guest.receipt = some receipt) (ended : state ≠ .staging)
      (moved : next.receipt = some { receipt with state })
      (acknowledged : next.acknowledged = guest.acknowledged) : Turned file guest asked next

theorem Turned.refl (asked : GuestRequest) : Turned file guest asked guest := .still rfl rfl rfl

theorem begin_turned (upload : Upload) (turn : Transfers.BeginTurn) :
    Turned file guest (.begin upload) (guest.begin file upload turn).1 := by
  unfold Transfers.begin
  split
  · exact .refl _
  split
  · exact .refl _
  next fresh =>
    split
    · unfold Transfers.admitted
      cases turn.stage with
      | lost => exact .still rfl rfl rfl
      | kept =>
        refine .admitted fresh rfl rfl (fun r held => ?_)
        rw [fresh] at held
        cases held
      | done =>
        cases turn.save with
        | done =>
          refine .admitted fresh rfl rfl (fun r held => ?_)
          cases Option.mem_some.mp held
          exact ⟨rfl, rfl, rfl⟩
        | kept =>
          refine .admitted fresh rfl rfl (fun r held => ?_)
          cases Option.mem_some.mp held
          exact ⟨rfl, rfl, rfl⟩
        | lost =>
          refine .admitted fresh rfl rfl (fun r held => ?_)
          have gone : guest.receipt = some r := held
          rw [fresh] at gone
          cases gone
    · exact .refl _

/-- An unfenced engine's receipt for a digest. -/
theorem upload_eq_some {digest : GuestModel.Digest} {receipt : Transfer.Receipt}
    (h : guest.upload digest = some receipt) :
    guest.failed = false ∧ guest.receipt = some receipt ∧ receipt.digest = digest := by
  unfold Transfers.upload at h
  split at h
  · cases h
  next healthy =>
    obtain ⟨held, same⟩ := Option.filter_eq_some_iff.mp h
    exact ⟨by simpa using healthy, held, by simpa using same⟩

theorem append_turned {digest : GuestModel.Digest} (known : guest.receipt ≠ none) (held : guest.staged = some bytes)
    (contiguous : offset ≤ bytes.length) (turn : Transfers.WriteTurn) :
    Turned file guest (.write digest offset data) (guest.append bytes offset data turn).1 := by
  unfold Transfers.append
  dsimp only
  split
  · refine .appended known held contiguous (List.prefix_refl _) rfl rfl (le_max_left _ _) ?_
    rw [Chunks.length_append_drop contiguous]
  · exact .appended known held contiguous (List.take_prefix _ _) rfl rfl le_rfl (le_max_left _ _)

theorem writeChunk_turned (digest : GuestModel.Digest) (offset : ℕ) (data : List UInt8)
    (turn : Transfers.WriteTurn) :
    Turned file guest (.write digest offset data) (guest.writeChunk digest offset data turn).1 := by
  unfold Transfers.writeChunk
  split
  next receipt bytes found held =>
    split
    next checked =>
      have known : guest.receipt ≠ none := by
        rw [(upload_eq_some found).2.1]
        exact Option.some_ne_none receipt
      exact append_turned known held checked.2.2.2.2.2.1 turn
    · exact .refl _
  · exact .refl _

theorem save_turned (self : Transfers) {asked : GuestRequest} {receipt : Transfer.Receipt}
    {state : Transfer.State} (ends : (∃ digest, asked = .commit digest) ∨ ∃ digest, asked = .abort digest)
    (ended : state ≠ .staging) (held : guest.receipt = some receipt)
    (same : self.acknowledged = guest.acknowledged)
    (before : ∃ earlier, earlier ≠ .staging ∧ self.receipt = some { receipt with state := earlier })
    (outcome : Outcome) : Turned file guest asked (self.save { receipt with state } outcome).1 := by
  obtain ⟨earlier, past, kept⟩ := before
  cases outcome with
  | done => exact .left ends held ended rfl same
  | lost => exact .left ends held past kept same
  | kept => exact .left ends held ended rfl same

theorem commit_turned (digest : GuestModel.Digest) (turn : Transfers.CommitTurn) :
    Turned file guest (.commit digest) (guest.commit sha256 digest turn).1 := by
  have ends : (∃ d, GuestRequest.commit digest = .commit d) ∨
      ∃ d, GuestRequest.commit digest = .abort d := .inl ⟨digest, rfl⟩
  unfold Transfers.commit
  split
  · exact .refl _
  next receipt found =>
    obtain ⟨_, held, _⟩ := upload_eq_some found
    split
    · exact .refl _
    split
    · have intended : Transfer.State.commitIntent ≠ .staging := by decide
      let asking : Transfers := { guest with receipt := some { receipt with state := .commitIntent } }
      cases turn.intent with
      | lost => exact .still rfl rfl rfl
      | kept => exact .left ends held intended rfl rfl
      | done =>
        unfold Transfers.published
        cases turn.publish with
        | done =>
          exact save_turned { asking with staged := none } ends (by decide) held rfl ⟨_, intended, rfl⟩ turn.save
        | lost => exact save_turned asking ends (by decide) held rfl ⟨_, intended, rfl⟩ turn.save
        | kept =>
          exact save_turned { asking with staged := none } ends (by decide) held rfl ⟨_, intended, rfl⟩ turn.save
    · exact .refl _

theorem abort_turned (digest : GuestModel.Digest) (turn : Transfers.AbortTurn) :
    Turned file guest (.abort digest) (guest.abort digest turn).1 := by
  have ends : (∃ d, GuestRequest.abort digest = .commit d) ∨
      ∃ d, GuestRequest.abort digest = .abort d := .inr ⟨digest, rfl⟩
  have ended : Transfer.State.aborted ≠ .staging := by decide
  unfold Transfers.abort
  split
  · exact .refl _
  next receipt found =>
    obtain ⟨_, held, _⟩ := upload_eq_some found
    split
    · exact .refl _
    dsimp only
    cases turn.save with
    | lost => exact .still rfl rfl rfl
    | kept => exact .left ends held ended rfl rfl
    | done =>
      split
      · exact .left ends held ended rfl rfl
      · split
        · exact .left ends held ended rfl rfl
        · exact .left ends held ended rfl rfl

variable (file sha256 guest) in
theorem dispatch_turned (turn : GuestTurn) (asked : GuestRequest) :
    Turned file guest asked (guest.dispatch file sha256 turn asked).1 := by
  cases asked with
  | begin upload => exact begin_turned upload turn.begin
  | write digest offset data => exact writeChunk_turned digest offset data turn.write
  | inspect digest => exact .refl _
  | commit digest => exact commit_turned digest turn.commit
  | abort digest => exact abort_turned digest turn.abort

/-! ### Answers -/

theorem begin_answer {upload : Upload} {turn : Transfers.BeginTurn} {r : Transfer.Receipt}
    (h : (guest.begin file upload turn).2 = some r) : (guest.begin file upload turn).1.receipt ≠ none := by
  unfold Transfers.begin at h ⊢
  split
  next refused =>
    rw [if_pos refused] at h
    cases h
  next accepted =>
    rw [if_neg accepted] at h
    split
    next receipt held =>
      rw [held]
      exact Option.some_ne_none receipt
    next fresh =>
      simp only [fresh] at h
      split
      next room =>
        rw [if_pos room] at h
        unfold Transfers.admitted at h ⊢
        cases stage : turn.stage with
        | lost => simp [stage] at h
        | kept => simp [stage] at h
        | done =>
          simp only [stage] at h ⊢
          cases saved : turn.save with
          | done => exact Option.some_ne_none _
          | lost => simp [saved, Transfers.save] at h
          | kept => exact Option.some_ne_none _
      next full =>
        rw [if_neg full] at h
        cases h

theorem writeChunk_answer {digest : GuestModel.Digest} {turn : Transfers.WriteTurn} {n : ℕ}
    (h : (guest.writeChunk digest offset data turn).2 = some n) :
    n ≤ (guest.writeChunk digest offset data turn).1.acknowledged ∧ guest.receipt ≠ none := by
  unfold Transfers.writeChunk at h ⊢
  split
  next receipt bytes found held =>
    simp only [found, held] at h
    obtain ⟨_, known, _⟩ := upload_eq_some found
    split
    next checked =>
      rw [if_pos checked] at h
      unfold Transfers.append at h ⊢
      dsimp only at h ⊢
      split
      next answered =>
        rw [if_pos answered] at h
        cases h
        refine ⟨le_max_right _ _, ?_⟩
        rw [known]
        exact Option.some_ne_none receipt
      next silent =>
        rw [if_neg silent] at h
        cases h
    next refused =>
      rw [if_neg refused] at h
      cases h
  next missing =>
    split at h
    next found held => exact absurd held (missing _ _ found)
    · cases h

theorem commit_answer {digest : GuestModel.Digest} {turn : Transfers.CommitTurn} {r : Transfer.Receipt}
    (h : (guest.commit sha256 digest turn).2 = some r) : guest.receipt ≠ none := by
  unfold Transfers.commit at h
  split at h
  · cases h
  next receipt found =>
    rw [(upload_eq_some found).2.1]
    exact Option.some_ne_none receipt

theorem abort_answer {digest : GuestModel.Digest} {turn : Transfers.AbortTurn} {r : Transfer.Receipt}
    (h : (guest.abort digest turn).2 = some r) : guest.receipt ≠ none := by
  unfold Transfers.abort at h
  split at h
  · cases h
  next receipt found =>
    rw [(upload_eq_some found).2.1]
    exact Option.some_ne_none receipt

/-- What a guest has it keeps. -/
structure Grown (guest next : Transfers) : Prop where
  receipt : guest.receipt ≠ none → next.receipt ≠ none
  acknowledged : guest.acknowledged ≤ next.acknowledged

theorem Grown.refl (guest : Transfers) : Grown guest guest := ⟨id, le_rfl⟩

theorem Turned.grown {asked : GuestRequest} (turned : Turned file guest asked next) : Grown guest next := by
  cases turned with
  | still receipt staged acknowledged =>
    refine ⟨fun had => ?_, acknowledged.ge⟩
    rw [receipt]
    exact had
  | admitted fresh staged acknowledged named => exact ⟨fun had => absurd fresh had, acknowledged.ge⟩
  | appended known held contiguous part receipt staged grows covered =>
    refine ⟨fun had => ?_, grows⟩
    rw [receipt]
    exact had
  | left ends held ended moved acknowledged =>
    refine ⟨fun _ => ?_, acknowledged.ge⟩
    rw [moved]
    exact Option.some_ne_none _

theorem reopen_grown (flushed : ℕ) : Grown guest (guest.reopen flushed) := by
  unfold Transfers.reopen
  split
  next fresh => exact ⟨fun had => absurd fresh had, le_rfl⟩
  next receipt held =>
    have had : guest.receipt ≠ none := by
      rw [held]
      exact Option.some_ne_none receipt
    cases receipt.state with
    | staging =>
      dsimp only
      split
      · exact ⟨fun _ => had, le_rfl⟩
      · exact ⟨fun _ => had, le_rfl⟩
    | commitIntent => exact ⟨fun _ => Option.some_ne_none _, le_rfl⟩
    | committed => exact ⟨fun _ => had, le_rfl⟩
    | unknown => exact ⟨fun _ => had, le_rfl⟩
    | aborted => exact ⟨fun _ => had, le_rfl⟩

variable (file sha256 guest) in
/-- An answer that is no failure comes from a receipt, and a length in it is acknowledged. -/
theorem dispatch_answer (turn : GuestTurn) (asked : GuestRequest)
    (h : (guest.dispatch file sha256 turn asked).2 ≠ .failed) :
    (guest.dispatch file sha256 turn asked).1.receipt ≠ none ∧
      ∀ n, (guest.dispatch file sha256 turn asked).2 = .stored n →
        n ≤ (guest.dispatch file sha256 turn asked).1.acknowledged := by
  have grown : Grown guest (guest.dispatch file sha256 turn asked).1 := (dispatch_turned file sha256 guest turn asked).grown
  cases asked with
  | begin upload =>
    unfold Transfers.dispatch at h ⊢
    dsimp only at h ⊢
    cases answer : (guest.begin file upload turn.begin).2 with
    | none => simp [answer, GuestAnswer.ofReceipt] at h
    | some r => exact ⟨begin_answer answer, fun n same => by cases same⟩
  | write digest offset data =>
    unfold Transfers.dispatch at h ⊢
    dsimp only at h ⊢
    cases answer : (guest.writeChunk digest offset data turn.write).2 with
    | none => simp [answer, GuestAnswer.ofStored] at h
    | some m =>
      obtain ⟨covered, had⟩ := writeChunk_answer answer
      refine ⟨grown.receipt had, fun n same => ?_⟩
      cases same
      exact covered
  | inspect digest =>
    unfold Transfers.dispatch at h ⊢
    dsimp only at h ⊢
    cases answer : guest.inspect digest with
    | none => simp [answer, GuestAnswer.ofReceipt] at h
    | some r =>
      refine ⟨?_, fun n same => by cases same⟩
      rw [(upload_eq_some answer).2.1]
      exact Option.some_ne_none r
  | commit digest =>
    unfold Transfers.dispatch at h ⊢
    dsimp only at h ⊢
    cases answer : (guest.commit sha256 digest turn.commit).2 with
    | none => simp [answer, GuestAnswer.ofReceipt] at h
    | some r => exact ⟨grown.receipt (commit_answer answer), fun n same => by cases same⟩
  | abort digest =>
    unfold Transfers.dispatch at h ⊢
    dsimp only at h ⊢
    cases answer : (guest.abort digest turn.abort).2 with
    | none => simp [answer, GuestAnswer.ofReceipt] at h
    | some r => exact ⟨grown.receipt (abort_answer answer), fun n same => by cases same⟩

/-! ### The staging file and the source -/

/-- A chunk of the selected source, at a cursor that the row has reached. -/
def Chunked (content : SourceRef → List UInt8) (row : Progress) (offset : ℕ) (data : List UInt8) : Prop :=
  ∃ s, row.file.sourceRef = some s ∧ (content s).length = row.file.plan.upload.size ∧
    data = chunk (content s) row.file.plan.upload.size offset ∧ offset ≤ row.written

/-- A prefix of the selected source, at most one chunk ahead of the cursor. -/
def Staged (content : SourceRef → List UInt8) (row : Progress) (bytes : List UInt8) : Prop :=
  bytes = [] ∨ ∃ s, row.file.sourceRef = some s ∧ (content s).length = row.file.plan.upload.size ∧
    bytes <+: content s ∧ bytes.length ≤ row.written + MAX_CHUNK_BYTES

/-- A request that the row stands behind. -/
def Backed (content : SourceRef → List UInt8) (row : Progress) : GuestRequest → Prop
  | .begin upload => upload = row.file.plan.upload
  | .write _ offset data => Chunked content row offset data
  | .commit _ => row.commitRequested = true
  | .abort _ => row.abortRequested = true
  | .inspect _ => True

structure GuestInv (file : FileEncoding) (content : SourceRef → List UInt8) (row : Progress)
    (guest : Transfers) : Prop where
  unbegun : guest.receipt = none → guest.acknowledged = 0
  named : ∀ r ∈ guest.receipt,
    r.upload = row.file.plan.upload ∧ r.digest = file.sha256 row.file.plan.upload
  ended : ∀ r ∈ guest.receipt, r.state ≠ .staging → row.commitRequested = true ∨ row.abortRequested = true
  staging : ∀ r ∈ guest.receipt, r.state = .staging →
    ∃ bytes, guest.staged = some bytes ∧ guest.acknowledged ≤ bytes.length ∧ Staged content row bytes

theorem Chunked.later (later : Later row row') (h : Chunked content row offset data) :
    Chunked content row' offset data := by
  obtain ⟨s, chosen, size, same, reached⟩ := h
  refine ⟨s, later.source s chosen, ?_, ?_, reached.trans later.written⟩
  · rw [later.plan]
    exact size
  · rw [later.plan]
    exact same

theorem Staged.later (later : Later row row') (h : Staged content row bytes) : Staged content row' bytes := by
  rcases h with empty | ⟨s, chosen, size, staging, short⟩
  · exact .inl empty
  · refine .inr ⟨s, later.source s chosen, ?_, staging, ?_⟩
    · rw [later.plan]
      exact size
    · exact short.trans (Nat.add_le_add_right later.written MAX_CHUNK_BYTES)

theorem Backed.later (later : Later row row') {asked : GuestRequest} (h : Backed content row asked) :
    Backed content row' asked := by
  cases asked with
  | begin upload =>
    have same : upload = row.file.plan.upload := h
    show upload = row'.file.plan.upload
    rw [same, later.plan]
  | write digest offset data => exact Chunked.later later h
  | commit digest => exact later.commit h
  | abort digest => exact later.abort h
  | inspect digest => trivial

theorem GuestInv.later (later : Later row row') (inv : GuestInv file content row guest) :
    GuestInv file content row' guest := by
  refine ⟨inv.unbegun, ?_, ?_, ?_⟩
  · rw [later.plan]
    exact inv.named
  · intro r held moved
    exact (inv.ended r held moved).imp later.commit later.abort
  · intro r held staging
    obtain ⟨bytes, staged, covered, source⟩ := inv.staging r held staging
    exact ⟨bytes, staged, covered, source.later later⟩

/-- The staged bytes are of the source that a chunk comes from. -/
theorem Staged.prefix_of {s : SourceRef} (h : Staged content row bytes)
    (chosen : row.file.sourceRef = some s) : bytes <+: content s := by
  rcases h with rfl | ⟨other, same, _, staging, _⟩
  · exact List.nil_prefix
  · rw [chosen] at same
    cases same
    exact staging

/-- Appending what a chunk adds, or a part of it, stages the same source. -/
theorem Staged.append {rest : List UInt8} (h : Staged content row bytes) (c : Chunked content row offset data)
    (contiguous : offset ≤ bytes.length) (part : rest <+: data.drop (bytes.length - offset)) :
    Staged content row (bytes ++ rest) := by
  obtain ⟨s, chosen, size, rfl, reached⟩ := c
  have staging := h.prefix_of chosen
  have whole := Chunks.append_prefix (k := min MAX_CHUNK_BYTES (row.file.plan.upload.size - offset)) staging contiguous
  refine .inr ⟨s, chosen, size, ((List.prefix_append_right_inj bytes).mpr part).trans whole, ?_⟩
  have ahead : bytes.length ≤ row.written + MAX_CHUNK_BYTES := by
    rcases h with rfl | ⟨_, _, _, _, short⟩
    · exact Nat.zero_le _
    · exact short
  have added := part.length_le
  have bound : (chunk (content s) row.file.plan.upload.size offset).length ≤ MAX_CHUNK_BYTES :=
    (List.length_take_le _ _).trans (min_le_left _ _)
  simp only [List.length_append, List.length_drop] at added ⊢
  omega

theorem GuestInv.turned {asked : GuestRequest} (inv : GuestInv file content row guest)
    (backed : Backed content row asked) (turned : Turned file guest asked next) :
    GuestInv file content row next := by
  cases turned with
  | still receipt staged acknowledged =>
    refine ⟨?_, ?_, ?_, ?_⟩
    · rw [receipt, acknowledged]
      exact inv.unbegun
    · rw [receipt]
      exact inv.named
    · rw [receipt]
      exact inv.ended
    · rw [receipt, staged, acknowledged]
      exact inv.staging
  | admitted fresh staged acknowledged named =>
    have nothing : next.acknowledged = 0 := acknowledged.trans (inv.unbegun fresh)
    have asks : _ = row.file.plan.upload := backed
    refine ⟨fun _ => nothing, fun r held => ?_, fun r held moved => ?_, fun r held _ => ?_⟩
    · obtain ⟨upload, digest, _⟩ := named r held
      rw [upload, digest, asks]
      exact ⟨rfl, rfl⟩
    · exact absurd (named r held).2.2 moved
    · exact ⟨[], staged, nothing.le, .inl rfl⟩
  | appended known held contiguous part receipt staged grows covered =>
    refine ⟨?_, ?_, ?_, ?_⟩
    · intro gone
      rw [receipt] at gone
      exact absurd gone known
    · rw [receipt]
      exact inv.named
    · rw [receipt]
      exact inv.ended
    · intro r found staging
      rw [receipt] at found
      obtain ⟨bytes, same, cover, source⟩ := inv.staging r found staging
      rw [held] at same
      cases same
      refine ⟨_, staged, ?_, source.append backed contiguous part⟩
      rw [List.length_append] at covered ⊢
      omega
  | left ends held ended moved acknowledged =>
    have asks : row.commitRequested = true ∨ row.abortRequested = true := by
      rcases ends with ⟨digest, rfl⟩ | ⟨digest, rfl⟩
      · exact .inl backed
      · exact .inr backed
    refine ⟨?_, ?_, fun _ _ _ => asks, ?_⟩
    · intro gone
      rw [moved] at gone
      cases gone
    · intro r found
      rw [moved] at found
      cases Option.mem_some.mp found
      obtain ⟨upload, digest⟩ := inv.named _ held
      exact ⟨upload, digest⟩
    · intro r found staging
      rw [moved] at found
      cases Option.mem_some.mp found
      exact absurd staging ended

/-- What a guest acknowledged survives its crash. -/
theorem GuestInv.reopen (inv : GuestInv file content row guest) (flushed : ℕ) :
    GuestInv file content row (guest.reopen flushed) := by
  unfold Transfers.reopen
  split
  next fresh =>
    refine ⟨inv.unbegun, inv.named, inv.ended, fun r held => ?_⟩
    have gone : guest.receipt = some r := held
    rw [fresh] at gone
    cases gone
  next receipt held =>
    have ended : receipt.state ≠ .staging → GuestInv file content row { guest with staged := none, failed := false } := by
      intro ended
      refine ⟨inv.unbegun, inv.named, inv.ended, fun r found staging => ?_⟩
      have same : guest.receipt = some r := found
      rw [held] at same
      cases same
      exact absurd staging ended
    cases state : receipt.state with
    | staging =>
      obtain ⟨bytes, staged, covered, source⟩ := inv.staging receipt held state
      simp only [staged]
      refine ⟨inv.unbegun, inv.named, inv.ended, fun r _ _ => ⟨_, rfl, ?_, ?_⟩⟩
      · have kept : guest.acknowledged ≤ min (max flushed guest.acknowledged) bytes.length :=
          le_min (le_max_right _ _) covered
        rw [List.length_take]
        exact kept
      · rcases source with rfl | ⟨s, chosen, size, staging, short⟩
        · exact .inl List.take_nil
        · refine .inr ⟨s, chosen, size, (List.take_prefix _ _).trans staging, ?_⟩
          exact (List.length_take_le' _ _).trans short
    | commitIntent =>
      have ended : receipt.state ≠ .staging := by
        rw [state]
        decide
      refine ⟨fun gone => ?_, fun r found => ?_, fun _ _ _ => inv.ended receipt held ended, fun r found staging => ?_⟩
      · cases gone
      · cases Option.mem_some.mp found
        obtain ⟨upload, digest⟩ := inv.named _ held
        exact ⟨upload, digest⟩
      · cases Option.mem_some.mp found
        cases staging
    | committed => exact ended (by rw [state]; decide)
    | unknown => exact ended (by rw [state]; decide)
    | aborted => exact ended (by rw [state]; decide)

/-- Whatever the guest still stages, it accepts a chunk at the cursor, and answers what the
controller expects of it. -/
structure Resumes (guest : Transfers) (digest : GuestModel.Digest) (size offset : ℕ) (data : List UInt8) : Prop where
  staging : ∃ r bytes, guest.receipt = some r ∧ r.state = .staging ∧ guest.staged = some bytes ∧
    Transfers.PrefixCheck size bytes offset data
  answers : ∀ turn : Transfers.WriteTurn, guest.failed = false → data ≠ [] → turn.answered = true →
    (guest.writeChunk digest offset data turn).2 = some (offset + data.length)

theorem chunk_length {s : SourceRef} {size : ℕ} (whole : (content s).length = size) (offset : ℕ) :
    (chunk (content s) size offset).length = min MAX_CHUNK_BYTES (size - offset) := by
  unfold chunk
  rw [List.length_take, List.length_drop, whole]
  omega

theorem Staged.ahead (h : Staged content row bytes) : bytes.length ≤ row.written + MAX_CHUNK_BYTES := by
  rcases h with rfl | ⟨_, _, _, _, short⟩
  · exact Nat.zero_le _
  · exact short

/-- The check that a write makes of the staging file. -/
theorem Staged.check (h : Staged content row bytes) (chunked : Chunked content row offset data)
    (reached : offset ≤ bytes.length) :
    Transfers.PrefixCheck row.file.plan.upload.size bytes offset data := by
  obtain ⟨s, chosen, size, rfl, _⟩ := chunked
  have prefixed := h.prefix_of chosen
  exact ⟨prefixed.length_le.trans size.le, reached, Chunks.overlap_eq prefixed⟩

theorem GuestInv.resumes (inv : GuestInv file content row guest) (uncommitted : row.commitRequested = false)
    (unaborted : row.abortRequested = false) (known : guest.receipt ≠ none)
    (cursor : row.written ≤ guest.acknowledged) (chunked : Chunked content row row.written data) :
    Resumes guest (file.sha256 row.file.plan.upload) row.file.plan.upload.size row.written data := by
  obtain ⟨r, held⟩ := Option.ne_none_iff_exists'.mp known
  have staging : r.state = .staging := by
    by_contra ended
    rcases inv.ended r held ended with commit | abort
    · simp [uncommitted] at commit
    · simp [unaborted] at abort
  obtain ⟨bytes, staged, covered, source⟩ := inv.staging r held staging
  obtain ⟨upload, digest⟩ := inv.named r held
  have reached : row.written ≤ bytes.length := cursor.trans covered
  have check := source.check chunked reached
  have ahead := source.ahead
  refine ⟨⟨r, bytes, held, staging, staged, check⟩, fun turn healthy nonempty answered => ?_⟩
  have long : data.length = min MAX_CHUNK_BYTES (row.file.plan.upload.size - row.written) := by
    obtain ⟨s, _, size, rfl, _⟩ := chunked
    exact chunk_length size row.written
  have fits : bytes.length ≤ row.file.plan.upload.size := check.1
  have found : guest.upload (file.sha256 row.file.plan.upload) = some r := by
    unfold Transfers.upload
    rw [if_neg (by simp [healthy]), held]
    simp [digest]
  have accepted : data ≠ [] ∧ data.length ≤ MAX_CHUNK_BYTES ∧ r.state = .staging ∧
      row.written + data.length ≤ r.upload.size ∧
      Transfers.PrefixCheck r.upload.size bytes row.written data := by
    rw [upload]
    refine ⟨nonempty, ?_, staging, ?_, check⟩
    · omega
    · omega
  have exactly : max bytes.length (row.written + data.length) = row.written + data.length := by omega
  unfold Transfers.writeChunk
  rw [found, staged]
  dsimp only
  rw [if_pos accepted]
  unfold Transfers.append
  dsimp only
  rw [if_pos answered, exactly]

end HudsonSandbox.Uploads
