import HudsonSandbox.Sources.Identity
import HudsonSandbox.Uploads.Row

/-!
# What each upload transaction does

One lemma for every transaction: what held when it committed, and what it changed.
-/

namespace HudsonSandbox.Uploads
open Checked Store GuestModel LiveOutput Supervisor SupervisorFiles Files FileDownloads FileSources
  Artifacts Run

variable {enc : Encoding} {request : SandboxId → UploadInput → BitVec 256} {file : FileEncoding}
  {row row' : Progress} {claim : Claim} {now : Time} {c : Context}

/-- The context that the rows give the holder of a claim. -/
def Progress.view (row : Progress) (claim : Claim) : Context :=
  { plan := row.file.plan, source := row.file.sourceRef, record := row.record,
    owner := owner row.file.plan claim (ms (row.op.leaseExpiresAt.getD 0)) }

theorem context_eq (h : context enc request file row claim now = .ok c) :
    row.op.Fenced claim now ∧ Identified enc request row.toUploadRow ∧ c = row.view claim := by
  unfold context at h
  obtain ⟨⟨plan, source⟩, found, h⟩ := bind_ok.mp h
  obtain ⟨fenced, known, same⟩ := context_ok.mp found
  obtain ⟨rfl, rfl⟩ := Prod.mk.inj same
  obtain ⟨_, _, h⟩ := bind_ok.mp h
  exact ⟨fenced, known, (pure_ok.mp h).symm⟩

/-! ### Ending a claim -/

/-- The same row with its claim over. -/
structure Settled (row row' : Progress) (status : Store.Status) : Prop where
  rest : ∃ op, row' = { row with op }
  pinned : row'.op.pinned = row.op.pinned
  revision : row'.op.claimRevision = row.op.claimRevision
  deadline : row'.op.deadline = row.op.deadline
  status : row'.op.status = status
  ended : row'.op.leaseExpiresAt = none

theorem finish_settled {status : Store.Status} (h : finish row claim now status = .ok row') :
    row.op.Fenced claim now ∧ Settled row row' status := by
  unfold finish Store.finish at h
  obtain ⟨base, settled, h⟩ := bind_ok.mp h
  obtain ⟨_, fenced, settled⟩ := bind_ok.mp settled
  rw [← pure_ok.mp h, ← pure_ok.mp settled]
  exact ⟨ensure_ok.mp fenced, ⟨_, rfl⟩, rfl, rfl, rfl, rfl, rfl⟩

theorem mutationFence_ok {authority : Bool} (h : mutationFence row claim authority now = .ok ()) :
    Eligible row.toUploadRow authority now := by
  unfold mutationFence at h
  exact ensure_ok.mp (seq_ok.mp h).1

/-! ### Preparing -/

/-- The rows after each action that `prepare_upload` answers. -/
inductive Prepared (enc : Encoding) (row : Progress) (claim : Claim) (now : Time) : Progress → UploadAction → Prop where
  | rejected {row' : Progress} (fresh : row.file.beginRequested = false)
      (settled : Settled row row' .failed) : Prepared enc row claim now row' .rejected
  | source (fresh : row.file.beginRequested = false) :
      Prepared enc row claim now row (.source row.file.plan)
  | begin (fresh : row.file.beginRequested = false) (thawed : row.file.sourceFrozenAt = none)
      (selected : row.file.sourceRef ≠ none) :
      Prepared enc row claim now
        { row with
          needsInspect := true
          file := { row.file with beginRequested := true }
          op := { row.op with
            attemptCount := 1, attemptReceipts := [beginIntent enc row.file.plan] } }
        (.begin (row.view claim).request)
  | abort (begun : row.file.beginRequested = true) (open_ : row.abortRequested = false) :
      Prepared enc row claim now { row with abortRequested := true, needsInspect := true }
        (.abort (row.view claim).request)
  | inspect (begun : row.file.beginRequested = true) :
      Prepared enc row claim now row (.inspect (row.view claim).request)
  | write {source : SourceRef} (begun : row.file.beginRequested = true)
      (inspected : row.needsInspect = false) (uncommitted : row.commitRequested = false)
      (unaborted : row.abortRequested = false) (staging : Staging row.record)
      (thawed : row.file.sourceFrozenAt = none) (selected : row.file.sourceRef = some source)
      (short : row.written < row.file.plan.upload.size) :
      Prepared enc row claim now row
        (.write (row.view claim).request source row.written
          (min MAX_CHUNK_BYTES (row.file.plan.upload.size - row.written)))
  | commit (begun : row.file.beginRequested = true) (inspected : row.needsInspect = false)
      (uncommitted : row.commitRequested = false) (unaborted : row.abortRequested = false)
      (staging : Staging row.record) (thawed : row.file.sourceFrozenAt = none)
      (whole : row.file.plan.upload.size ≤ row.written) :
      Prepared enc row claim now { row with commitRequested := true, needsInspect := true }
        (.commit (row.view claim).request)

theorem prepareBegin_prepared {first : Reading} {authority : Bool} {action : UploadAction}
    (fresh : row.file.beginRequested = false)
    (h : prepareBegin enc row (row.view claim) claim first authority now = .ok (row', action)) :
    Prepared enc row claim now row' action := by
  unfold prepareBegin at h
  split at h
  · obtain ⟨next, done, h⟩ := bind_ok.mp h
    cases pure_ok.mp h
    exact .rejected fresh (finish_settled done).2
  split at h
  · cases pure_ok.mp h
    exact .source fresh
  next selected =>
    obtain ⟨_, fenced, h⟩ := bind_ok.mp h
    cases pure_ok.mp h
    exact .begin fresh (mutationFence_ok fenced).1 selected

theorem prepareTransfer_prepared {authority : Bool} {action : UploadAction}
    (begun : row.file.beginRequested = true) (inspected : row.needsInspect = false)
    (uncommitted : row.commitRequested = false) (unaborted : row.abortRequested = false)
    (staging : Staging row.record)
    (h : prepareTransfer row (row.view claim) claim authority now = .ok (row', action)) :
    Prepared enc row claim now row' action := by
  unfold prepareTransfer at h
  split at h
  next short =>
    obtain ⟨source, selected, h⟩ := bind_ok.mp h
    obtain ⟨_, fenced, h⟩ := bind_ok.mp h
    cases pure_ok.mp h
    exact .write begun inspected uncommitted unaborted staging (mutationFence_ok fenced).1
      (okOr_ok.mp selected) short
  next whole =>
    obtain ⟨_, fenced, h⟩ := bind_ok.mp h
    cases pure_ok.mp h
    exact .commit begun inspected uncommitted unaborted staging (mutationFence_ok fenced).1
      (Nat.le_of_not_lt whole)

theorem prepareUpload_prepared {host : HostId} {epoch : ℤ} {first : Reading} {authority : Bool}
    {action : UploadAction}
    (h : prepareUpload enc request file row claim host epoch first authority now = .ok (row', action)) :
    row.op.Fenced claim now ∧ Identified enc request row.toUploadRow ∧
      Prepared enc row claim now row' action := by
  unfold prepareUpload at h
  obtain ⟨c, found, h⟩ := bind_ok.mp h
  obtain ⟨fenced, known, rfl⟩ := context_eq found
  refine ⟨fenced, known, ?_⟩
  obtain ⟨_, _, h⟩ := bind_ok.mp h
  split at h
  next fresh => exact prepareBegin_prepared fresh h
  next begun =>
    have begun : row.file.beginRequested = true := by simpa using begun
    split at h
    next refused =>
      cases pure_ok.mp h
      exact .abort begun refused.2
    split at h
    · cases pure_ok.mp h
      exact .inspect begun
    next quiet =>
      simp only [not_or, Bool.not_eq_true] at quiet
      split at h
      next staging => exact prepareTransfer_prepared begun quiet.1 quiet.2.1 quiet.2.2 staging h
      · cases pure_ok.mp h
        exact .inspect begun

/-! ### The other transactions -/

theorem acceptUploadSource_base {source : SourceRef}
    (h : acceptUploadSource enc request file row claim source now = .ok row') :
    ∃ base, Store.acceptUploadSource enc request row.toUploadRow claim source now = .ok base ∧
      row' = { row with toUploadRow := base } := by
  unfold acceptUploadSource at h
  obtain ⟨_, _, h⟩ := bind_ok.mp h
  obtain ⟨base, accepted, h⟩ := bind_ok.mp h
  exact ⟨base, accepted, (pure_ok.mp h).symm⟩

theorem uploadUnknown_settled (h : uploadUnknown enc request file row claim now = .ok row') :
    row.op.Fenced claim now ∧ ∃ needsInspect, Settled { row with needsInspect } row'
      (if row.file.beginRequested then .unknown else .running) := by
  unfold uploadUnknown at h
  obtain ⟨_, _, h⟩ := bind_ok.mp h
  obtain ⟨fenced, settled⟩ := finish_settled h
  exact ⟨fenced, _, settled⟩

/-- What held when a chunk was confirmed. -/
structure Confirmed (row : Progress) (claim : Claim) (asked : FileRequest) (source : SourceRef)
    (offset : ℕ) (now : Time) : Prop where
  fenced : row.op.Fenced claim now
  asked : asked = (row.view claim).request
  selected : row.file.sourceRef = some source
  cursor : row.written = offset
  begun : row.file.beginRequested = true
  inspected : row.needsInspect = false
  uncommitted : row.commitRequested = false
  unaborted : row.abortRequested = false
  staging : Staging row.record
  thawed : row.file.sourceFrozenAt = none

theorem confirmUploadWrite_ok {asked : FileRequest} {source : SourceRef} {offset : ℕ} {authority : Bool}
    (h : confirmUploadWrite enc request file row claim asked source offset authority now = .ok ()) :
    Confirmed row claim asked source offset now := by
  unfold confirmUploadWrite at h
  obtain ⟨c, found, h⟩ := bind_ok.mp h
  obtain ⟨fenced, _, rfl⟩ := context_eq found
  obtain ⟨_, checked, h⟩ := bind_ok.mp h
  obtain ⟨same, selected, cursor, begun, inspected, uncommitted, unaborted, staging⟩ := ensure_ok.mp checked
  exact ⟨fenced, same.symm, selected, cursor, begun, inspected, uncommitted, unaborted, staging,
    (mutationFence_ok h).1⟩

/-- What an observation that carries evidence leaves in the row. -/
structure Observed (file : FileEncoding) (row : Progress) (claim : Claim) (o : FileObservation)
    (written : Option ℕ) (row' : Progress) : Prop where
  begun : row.file.beginRequested = true
  owner : o.ownership = (row.view claim).owner
  stored : o.stored = written
  settled : ∃ record kept cursor,
    observedRecord file row (row.view claim) o = .ok (some record) ∧
    advanceCursor row (row.view claim) (observedState o record) written = .ok cursor ∧
    kept = (if record.notStarted = true then record
      else { record with commitRequested := row.commitRequested, abortRequested := row.abortRequested }) ∧
    Settled { row with written := cursor, record := some kept, needsInspect := decide (observedState o record ≠ 1) } row'
      (observedStatus o (observedState o record))

theorem observeUpload_observed {o : FileObservation} {written : Option ℕ} {allowSimulated : Bool}
    (h : observeUpload enc request file row claim o written allowSimulated now = .ok row') :
    row.op.Fenced claim now ∧ Identified enc request row.toUploadRow ∧
      (uploadUnknown enc request file row claim now = .ok row' ∨ Observed file row claim o written row') := by
  unfold observeUpload at h
  obtain ⟨c, found, h⟩ := bind_ok.mp h
  obtain ⟨fenced, known, rfl⟩ := context_eq found
  refine ⟨fenced, known, ?_⟩
  obtain ⟨_, _, h⟩ := bind_ok.mp h
  obtain ⟨_, checked, h⟩ := bind_ok.mp h
  obtain ⟨begun, same, _, stored, _⟩ := ensure_ok.mp checked
  obtain ⟨_, _, h⟩ := bind_ok.mp h
  obtain ⟨_, _, h⟩ := bind_ok.mp h
  obtain ⟨found, observed, h⟩ := bind_ok.mp h
  cases found with
  | none => exact .inl h
  | some record =>
    unfold settleObservation at h
    obtain ⟨cursor, moved, h⟩ := bind_ok.mp h
    obtain ⟨_, _, h⟩ := bind_ok.mp h
    exact .inr ⟨begun, same, stored, record, _, cursor, observed, moved, rfl, (finish_settled h).2⟩

theorem onRow_ok {result : Except DispatchError UploadRow} (h : row.onRow result = .ok row') :
    ∃ base, result = .ok base ∧ row' = { row with toUploadRow := base } := by
  unfold Progress.onRow at h
  obtain ⟨base, made, h⟩ := bind_ok.mp h
  exact ⟨base, made, (pure_ok.mp h).symm⟩

end HudsonSandbox.Uploads
