import HudsonSandbox.Uploads.Effects
import HudsonSandbox.Uploads.Exchange

/-!
# Progress only moves forward

What no transaction on the rows of an upload takes back, and why a cursor belongs to one claim:
whatever moves it ends the claim under which it moved.
-/

namespace HudsonSandbox.Uploads
open Checked Store LiveOutput Supervisor SupervisorFiles Files FileSources Artifacts Host Run

variable {enc : Encoding} {request : SandboxId → UploadInput → BitVec 256} {file : FileEncoding}
  {row row' : Progress} {claim : Claim} {now : Time}

structure Later (row row' : Progress) : Prop where
  plan : row'.file.plan = row.file.plan
  source : ∀ s, row.file.sourceRef = some s → row'.file.sourceRef = some s
  begun : row.file.beginRequested = true → row'.file.beginRequested = true
  written : row.written ≤ row'.written
  commit : row.commitRequested = true → row'.commitRequested = true
  abort : row.abortRequested = true → row'.abortRequested = true
  revision : row.op.claimRevision ≤ row'.op.claimRevision
  live : row'.op.claimRevision = row.op.claimRevision → row'.op.leaseExpiresAt ≠ none →
    row.op.leaseExpiresAt ≠ none ∧ row'.written = row.written

theorem Later.refl (row : Progress) : Later row row :=
  ⟨rfl, fun _ chosen => chosen, id, le_rfl, id, id, le_rfl, fun _ held => ⟨held, rfl⟩⟩

/-- A transaction that leaves the transfer alone and touches the claim at most while it is held. -/
theorem Later.of_base {base : UploadRow} (plan : base.file.plan = row.file.plan)
    (source : ∀ s, row.file.sourceRef = some s → base.file.sourceRef = some s)
    (begun : row.file.beginRequested = true → base.file.beginRequested = true)
    (revision : row.op.claimRevision ≤ base.op.claimRevision)
    (live : base.op.claimRevision = row.op.claimRevision → base.op.leaseExpiresAt ≠ none →
      row.op.leaseExpiresAt ≠ none) : Later row { row with toUploadRow := base } :=
  ⟨plan, source, begun, le_rfl, id, id, revision, fun same held => ⟨live same held, rfl⟩⟩

/-- A claim that ends leaves no cursor to anyone. -/
theorem Settled.later {middle : Progress} {status : Store.Status} (settled : Settled middle row' status)
    (base : middle.toUploadRow = row.toUploadRow) (written : row.written ≤ middle.written)
    (commit : middle.commitRequested = row.commitRequested)
    (abort : middle.abortRequested = row.abortRequested) : Later row row' := by
  have revision := settled.revision
  have ended := settled.ended
  obtain ⟨op, rfl⟩ := settled.rest
  rw [base] at revision
  refine ⟨?_, ?_, ?_, written, ?_, ?_, revision.ge, fun _ held => absurd ended held⟩
  · show middle.file.plan = row.file.plan
    rw [base]
  · show ∀ s, row.file.sourceRef = some s → middle.file.sourceRef = some s
    rw [base]
    exact fun _ chosen => chosen
  · show row.file.beginRequested = true → middle.file.beginRequested = true
    rw [base]
    exact id
  · show row.commitRequested = true → middle.commitRequested = true
    rw [commit]
    exact id
  · show row.abortRequested = true → middle.abortRequested = true
    rw [abort]
    exact id

theorem Prepared.later {action : UploadAction} (prepared : Prepared enc row claim now row' action) :
    Later row row' := by
  cases prepared with
  | rejected fresh settled => exact settled.later rfl le_rfl rfl rfl
  | source fresh => exact .refl row
  | begin fresh thawed selected =>
    exact ⟨rfl, fun _ chosen => chosen, fun _ => rfl, le_rfl, id, id, le_rfl, fun _ held => ⟨held, rfl⟩⟩
  | abort begun open_ =>
    exact ⟨rfl, fun _ chosen => chosen, id, le_rfl, id, fun _ => rfl, le_rfl, fun _ held => ⟨held, rfl⟩⟩
  | inspect begun => exact .refl row
  | write begun inspected uncommitted unaborted staging thawed selected short => exact .refl row
  | commit begun inspected uncommitted unaborted staging thawed whole =>
    exact ⟨rfl, fun _ chosen => chosen, id, le_rfl, fun _ => rfl, id, le_rfl, fun _ held => ⟨held, rfl⟩⟩

theorem acceptUploadSource_later {source : SourceRef}
    (h : acceptUploadSource enc request file row claim source now = .ok row') : Later row row' := by
  obtain ⟨base, accepted, rfl⟩ := acceptUploadSource_base h
  unfold Store.acceptUploadSource at accepted
  obtain ⟨⟨plan, selected⟩, found, accepted⟩ := bind_ok.mp accepted
  obtain ⟨_, _, same⟩ := context_ok.mp found
  obtain ⟨rfl, rfl⟩ := Prod.mk.inj same
  obtain ⟨_, _, accepted⟩ := bind_ok.mp accepted
  obtain ⟨_, checked, accepted⟩ := bind_ok.mp accepted
  obtain ⟨_, _, chosen, _⟩ := ensure_ok.mp checked
  obtain ⟨_, _, accepted⟩ := bind_ok.mp accepted
  unfold Store.finish at accepted
  obtain ⟨_, _, accepted⟩ := bind_ok.mp accepted
  rw [← pure_ok.mp accepted]
  refine .of_base rfl (fun s held => ?_) id le_rfl (fun _ held => absurd rfl held)
  exact congrArg some (chosen s held).symm

theorem uploadUnknown_later (h : uploadUnknown enc request file row claim now = .ok row') :
    Later row row' := by
  obtain ⟨_, needsInspect, settled⟩ := uploadUnknown_settled h
  exact settled.later rfl le_rfl rfl rfl

/-- The cursor stays, or moves by one chunk to what was acknowledged. -/
theorem advanceCursor_ok {c : Context} {state cursor : ℕ} {written : Option ℕ}
    (h : advanceCursor row c state written = .ok cursor) :
    written = none ∧ cursor = row.written ∨
      written = some cursor ∧ row.written < cursor ∧
        cursor = row.written + min (c.plan.upload.size - row.written) MAX_CHUNK_BYTES ∧
        row.commitRequested = false ∧ row.abortRequested = false := by
  unfold advanceCursor at h
  cases written with
  | none => exact .inl ⟨rfl, (pure_ok.mp h).symm⟩
  | some next =>
    obtain ⟨_, checked, h⟩ := bind_ok.mp h
    obtain ⟨_, uncommitted, unaborted, sum, more⟩ := ensure_ok.mp checked
    cases pure_ok.mp h
    exact .inr ⟨rfl, more, sum, uncommitted, unaborted⟩

theorem Observed.later {o : FileObservation} {written : Option ℕ}
    (observed : Observed file row claim o written row') : Later row row' := by
  obtain ⟨record, kept, cursor, _, moved, _, settled⟩ := observed.settled
  have forward : row.written ≤ cursor := by
    rcases advanceCursor_ok moved with ⟨_, rfl⟩ | ⟨_, more, _⟩
    · exact le_rfl
    · exact more.le
  exact settled.later rfl forward rfl rfl

theorem observeUpload_later {o : FileObservation} {written : Option ℕ} {allowSimulated : Bool}
    (h : observeUpload enc request file row claim o written allowSimulated now = .ok row') :
    Later row row' := by
  obtain ⟨_, _, unknown | observed⟩ := observeUpload_observed h
  · exact uploadUnknown_later unknown
  · exact observed.later

theorem claimFileSourceCleanup_later {base : UploadRow} {lease : ℤ}
    (h : claimFileSourceCleanup enc request row.toUploadRow lease now = .ok base) :
    Later row { row with toUploadRow := base } := by
  unfold claimFileSourceCleanup at h
  obtain ⟨_, _, h⟩ := bind_ok.mp h
  obtain ⟨_, _, h⟩ := bind_ok.mp h
  obtain ⟨_, _, h⟩ := bind_ok.mp h
  obtain ⟨_, _, h⟩ := bind_ok.mp h
  rw [← pure_ok.mp h]
  exact .of_base rfl (fun _ chosen => chosen) id le_rfl (fun _ held => held)

theorem completeFileSourceCleanup_later {base : UploadRow} {cleanup : SourceCleanupClaim}
    {receipt : SourceRetirement}
    (h : completeFileSourceCleanup enc request row.toUploadRow cleanup receipt now = .ok base) :
    Later row { row with toUploadRow := base } := by
  unfold completeFileSourceCleanup at h
  obtain ⟨_, _, h⟩ := bind_ok.mp h
  obtain ⟨_, _, h⟩ := bind_ok.mp h
  obtain ⟨_, _, h⟩ := bind_ok.mp h
  split at h
  · obtain ⟨_, _, h⟩ := bind_ok.mp h
    obtain ⟨_, _, h⟩ := bind_ok.mp h
    obtain ⟨_, _, h⟩ := bind_ok.mp h
    rw [← pure_ok.mp h]
    exact .refl row
  · obtain ⟨_, _, h⟩ := bind_ok.mp h
    obtain ⟨_, _, h⟩ := bind_ok.mp h
    rw [← pure_ok.mp h]
    exact .of_base rfl (fun _ chosen => chosen) id le_rfl (fun _ held => held)

theorem deferFileSourceCleanup_later {base : UploadRow} {cleanup : SourceCleanupClaim} {delay : ℤ}
    (h : deferFileSourceCleanup row.toUploadRow cleanup delay now = .ok base) :
    Later row { row with toUploadRow := base } := by
  unfold deferFileSourceCleanup at h
  obtain ⟨_, _, h⟩ := bind_ok.mp h
  obtain ⟨_, _, h⟩ := bind_ok.mp h
  rw [← pure_ok.mp h]
  exact .of_base rfl (fun _ chosen => chosen) id le_rfl (fun _ held => held)

theorem transact_later {event : UploadEvent} (h : transact enc request file row event = .ok row') :
    Later row row' := by
  cases event with
  | claimUpload lease now =>
    obtain ⟨base, made, rfl⟩ := onRow_ok h
    unfold claimUpload at made
    obtain ⟨_, _, made⟩ := bind_ok.mp made
    rw [← pure_ok.mp made]
    have raised : row.op.claimRevision < row.op.claimRevision + 1 := Int.lt_succ _
    exact .of_base rfl (fun _ chosen => chosen) id raised.le (fun same _ => absurd same raised.ne')
  | renewUpload claim lease now =>
    obtain ⟨base, made, rfl⟩ := onRow_ok h
    unfold renewUpload at made
    obtain ⟨_, fenced, made⟩ := bind_ok.mp made
    rw [← pure_ok.mp made]
    refine .of_base rfl (fun _ chosen => chosen) id le_rfl (fun _ _ gone => ?_)
    obtain ⟨t, held, _⟩ := (ensure_ok.mp fenced).2.2.1
    rw [gone] at held
    cases held
  | deferUpload claim delay now =>
    obtain ⟨base, made, rfl⟩ := onRow_ok h
    unfold deferUpload at made
    obtain ⟨_, _, made⟩ := bind_ok.mp made
    rw [← pure_ok.mp made]
    exact .of_base rfl (fun _ chosen => chosen) id le_rfl (fun _ held => absurd rfl held)
  | prepareUpload claim host epoch first authority now =>
    obtain ⟨⟨next, action⟩, made, rfl⟩ := map_ok.mp h
    obtain ⟨_, _, prepared⟩ := prepareUpload_prepared made
    exact prepared.later
  | acceptUploadSource claim source now => exact acceptUploadSource_later h
  | uploadUnknown claim now => exact uploadUnknown_later h
  | confirmUploadWrite claim asked source offset authority now =>
    obtain ⟨_, _, rfl⟩ := map_ok.mp h
    exact .refl row
  | observeUpload claim o written allowSimulated now => exact observeUpload_later h
  | claimFileSourceCleanup lease now =>
    obtain ⟨base, made, rfl⟩ := onRow_ok h
    exact claimFileSourceCleanup_later made
  | completeFileSourceCleanup claim receipt now =>
    obtain ⟨base, made, rfl⟩ := onRow_ok h
    exact completeFileSourceCleanup_later made
  | deferFileSourceCleanup claim delay now =>
    obtain ⟨base, made, rfl⟩ := onRow_ok h
    exact deferFileSourceCleanup_later made

theorem uploadStep_later (row : Progress) (event : UploadEvent) :
    Later row (uploadStep enc request file row event) :=
  commit_keeps (.refl row) fun _ h => transact_later h

end HudsonSandbox.Uploads
