import HudsonSandbox.Sources.Upload

/-!
# The identity of an upload row

Every transaction re-derives the attempt's plan and source from several rows before it writes. The
invariant here says that this succeeds in every reachable row, that freezing fixes the answer, and
that a recorded receipt was checked against the frozen answer.
-/

namespace HudsonSandbox.Store
open Checked FileDownloads Files FileSources Artifacts

variable {enc : Encoding} {request : SandboxId → UploadInput → BitVec 256}
  {row row' : UploadRow} {now : Time} {claim : Claim} {cleanup : SourceCleanupClaim}

/-- The columns of the operation that no claim holder ever rewrites, and the begin record. -/
def UploadOperation.pinned (op : UploadOperation) :=
  (op.id, op.projectId, op.sandboxId, op.kind, op.payload, op.requestDigest, op.digestVersion,
    op.fileAllocationId, op.attemptCount, op.attemptReceipts)

structure Identified (enc : Encoding) (request : SandboxId → UploadInput → BitVec 256)
    (row : UploadRow) : Prop where
  kind : row.op.kind = .fileWrite
  operation : row.file.operationId = row.op.id
  project : row.file.projectId = row.op.projectId
  sandbox : row.file.sandboxId = row.op.sandboxId
  plan : row.file.plan.validate = .ok ()
  pin : row.op.fileAllocationId = some row.file.allocationId
  allocation : row.allocation.id = row.file.allocationId ∧
    row.allocation.projectId = row.op.projectId ∧ row.allocation.sandboxId = row.op.sandboxId
  content : row.file.plan.owner = row.expected ∧
    UploadInput.fromPlan row.file.plan = row.op.payload ∧
    row.file.size = row.file.plan.upload.size ∧
    row.op.requestDigest = request row.op.sandboxId (UploadInput.fromPlan row.file.plan) ∧
    row.op.digestVersion = DIGEST_VERSION
  source : ∀ r ∈ row.file.sourceRef, r.validate = .ok () ∧ r.plan = row.file.plan
  attempts : row.op.attemptCount = if row.file.beginRequested then 1 else 0
  receipts : row.file.beginRequested = true →
    row.op.attemptReceipts = [beginIntent enc row.file.plan]

theorem sourceIdentity_ok {row : UploadRow} {found : SourcePlan × Option SourceRef} :
    sourceIdentity enc request row = .ok found ↔
      Identified enc request row ∧ found = (row.file.plan, row.file.sourceRef) := by
  simp only [sourceIdentity, bind_ok, ensure_ok, mapError_ok, pure_ok, exists_const]
  constructor
  · rintro ⟨⟨a, b, c, d⟩, _, e, f, g, h, i, j, k, l⟩
    exact ⟨⟨a, b, c, d, e, f, g, h, i, j, k⟩, l.symm⟩
  · rintro ⟨⟨a, b, c, d, e, f, g, h, i, j, k⟩, l⟩
    exact ⟨⟨a, b, c, d⟩, (), e, f, g, h, i, j, k, l.symm⟩

theorem Identified.congr (known : Identified enc request row) (file : row'.file = row.file)
    (allocation : row'.allocation = row.allocation) (pinned : row'.op.pinned = row.op.pinned) :
    Identified enc request row' := by
  obtain ⟨op, _, _⟩ := row
  obtain ⟨op', _, _⟩ := row'
  subst file allocation
  simp only [UploadOperation.pinned, Prod.mk.injEq] at pinned
  obtain ⟨id, project, sandbox, kind, payload, digest, version, pin, attempts, receipts⟩ := pinned
  obtain ⟨a, b, c, d, e, f, g, h, i, j, k⟩ := known
  constructor <;> simp_all [UploadRow.expected]

/-- What completion checked of a receipt before it recorded it. -/
structure Evidence (enc : Encoding) (row : UploadRow) (receipt : SourceRetirement) : Prop where
  valid : receipt.validate enc.plan row.file.plan = .ok ()
  selected : ∀ r ∈ row.file.sourceRef, receipt.previous = some r

def UploadRow.frozenManifest (row : UploadRow) : SourceCleanupManifest :=
  { version := 1, plan := row.file.plan, selected := row.file.sourceRef }

structure RowInv (enc : Encoding) (request : SandboxId → UploadInput → BitVec 256)
    (row : UploadRow) : Prop where
  identified : Identified enc request row
  thawed : row.file.sourceFrozenAt = none → row.file.sourceCleanupManifest = none
  frozen : row.file.sourceFrozenAt ≠ none → row.file.sourceCleanupManifest = some row.frozenManifest
  retired : row.file.sourceRetiredAt ≠ none → row.file.sourceFrozenAt ≠ none ∧
    row.file.sourceCleanupLeaseUntil = none ∧
    ∃ receipt, row.file.sourceRetirement = some receipt ∧ Evidence enc row receipt
  unretired : row.file.sourceRetiredAt = none → row.file.sourceRetirement = none

/-- What no transaction undoes: the plan, the freeze with its selection, a recorded receipt. -/
structure Grows (row row' : UploadRow) : Prop where
  plan : row'.file.plan = row.file.plan
  frozen : row.file.sourceFrozenAt ≠ none →
    row'.file.sourceFrozenAt ≠ none ∧ row'.file.sourceRef = row.file.sourceRef
  unselected : row'.file.sourceRef = none → row.file.sourceRef = none
  receipt : ∀ r ∈ row.file.sourceRetirement, row'.file.sourceRetirement = some r

theorem Grows.refl (row : UploadRow) : Grows row row :=
  ⟨rfl, fun frozen => ⟨frozen, rfl⟩, id, fun _ saved => saved⟩

theorem Grows.trans {middle : UploadRow} (first : Grows row middle) (last : Grows middle row') :
    Grows row row' where
  plan := last.plan.trans first.plan
  frozen frozen :=
    have ⟨frozen, same⟩ := first.frozen frozen
    have ⟨frozen, again⟩ := last.frozen frozen
    ⟨frozen, again.trans same⟩
  unselected absent := first.unselected (last.unselected absent)
  receipt r saved := last.receipt r (first.receipt r saved)

/-- A transaction that keeps the row consistent and records no receipt. -/
structure Keeps (enc : Encoding) (request : SandboxId → UploadInput → BitVec 256)
    (row row' : UploadRow) : Prop where
  inv : RowInv enc request row'
  grows : Grows row row'
  unrecorded : row'.file.sourceRetirement = row.file.sourceRetirement

theorem Keeps.refl (inv : RowInv enc request row) : Keeps enc request row row :=
  ⟨inv, .refl row, rfl⟩

/-- A transaction that changes only claim columns of the operation. -/
theorem RowInv.reclaim (inv : RowInv enc request row) (file : row'.file = row.file)
    (allocation : row'.allocation = row.allocation) (pinned : row'.op.pinned = row.op.pinned) :
    Keeps enc request row row' := by
  have identified := inv.identified.congr file allocation pinned
  obtain ⟨_, thawed, frozen, retired, unretired⟩ := inv
  refine ⟨⟨identified, ?_, ?_, ?_, ?_⟩, ⟨by rw [file], ?_, by rw [file]; exact id, ?_⟩, by rw [file]⟩
  · rw [file]; exact thawed
  · rw [UploadRow.frozenManifest, file]; exact frozen
  · rw [file]
    intro done
    obtain ⟨frozen, lease, receipt, saved, valid, selected⟩ := retired done
    exact ⟨frozen, lease, receipt, saved, by rw [file]; exact valid, by rw [file]; exact selected⟩
  · rw [file]; exact unretired
  · rw [file]; exact fun frozen => ⟨frozen, rfl⟩
  · rw [file]; exact fun _ saved => saved

theorem context_ok {found : SourcePlan × Option SourceRef} :
    context enc request row claim now = .ok found ↔
      row.op.Fenced claim now ∧ Identified enc request row ∧
        found = (row.file.plan, row.file.sourceRef) := by
  simp only [context, bind_ok, ensure_ok, sourceIdentity_ok, exists_const]
  constructor
  · rintro ⟨fenced, _, known, same⟩
    exact ⟨fenced, known, same⟩
  · rintro ⟨fenced, known, same⟩
    exact ⟨fenced, known.kind, known, same⟩

theorem finish_ok {status : Status} (h : finish row claim now status = .ok row') :
    row'.file = row.file ∧ row'.allocation = row.allocation ∧ row'.op.pinned = row.op.pinned := by
  unfold finish at h
  obtain ⟨_, _, h⟩ := bind_ok.mp h
  rw [← pure_ok.mp h]
  exact ⟨rfl, rfl, rfl⟩

theorem finish_keeps {status : Status} (inv : RowInv enc request row)
    (h : finish row claim now status = .ok row') : Keeps enc request row row' := by
  obtain ⟨file, allocation, pinned⟩ := finish_ok h
  exact inv.reclaim file allocation pinned

/-! ### The claim holder's transactions -/

theorem claimUpload_keeps {lease : ℤ} (inv : RowInv enc request row)
    (h : claimUpload row lease now = .ok row') : Keeps enc request row row' := by
  unfold claimUpload at h
  obtain ⟨_, _, h⟩ := bind_ok.mp h
  rw [← pure_ok.mp h]
  exact inv.reclaim rfl rfl rfl

theorem renewUpload_keeps {lease : ℤ} (inv : RowInv enc request row)
    (h : renewUpload row claim lease now = .ok row') : Keeps enc request row row' := by
  unfold renewUpload at h
  obtain ⟨_, _, h⟩ := bind_ok.mp h
  rw [← pure_ok.mp h]
  exact inv.reclaim rfl rfl rfl

theorem deferUpload_keeps {delay : ℤ} (inv : RowInv enc request row)
    (h : deferUpload row claim delay now = .ok row') : Keeps enc request row row' := by
  unfold deferUpload at h
  obtain ⟨_, _, h⟩ := bind_ok.mp h
  rw [← pure_ok.mp h]
  exact inv.reclaim rfl rfl rfl

theorem observeUpload_keeps {status : Status} (inv : RowInv enc request row)
    (h : observeUpload enc request row claim status now = .ok row') :
    Keeps enc request row row' := by
  unfold observeUpload at h
  obtain ⟨_, _, h⟩ := bind_ok.mp h
  exact finish_keeps inv h

/-- Begin sets the flag, the count and the record together. -/
theorem RowInv.begin (inv : RowInv enc request row) :
    Keeps enc request row
      { row with
        file := { row.file with beginRequested := true }
        op := { row.op with attemptCount := 1, attemptReceipts := [beginIntent enc row.file.plan] } } := by
  obtain ⟨⟨a, b, c, d, e, f, g, i, j, _, _⟩, thawed, frozen, retired, unretired⟩ := inv
  refine ⟨⟨⟨a, b, c, d, e, f, g, i, j, rfl, fun _ => rfl⟩, thawed, frozen, ?_, unretired⟩,
    ⟨rfl, fun frozen => ⟨frozen, rfl⟩, id, fun _ saved => saved⟩, rfl⟩
  intro done
  obtain ⟨frozen, lease, receipt, saved, valid, selected⟩ := retired done
  exact ⟨frozen, lease, receipt, saved, valid, selected⟩

theorem prepareUpload_keeps {host : HostId} {epoch : ℤ} {authority : Bool}
    (inv : RowInv enc request row)
    (h : prepareUpload enc request row claim host epoch authority now = .ok row') :
    Keeps enc request row row' := by
  unfold prepareUpload at h
  obtain ⟨⟨plan, source⟩, found, h⟩ := bind_ok.mp h
  obtain ⟨_, _, same⟩ := context_ok.mp found
  obtain ⟨rfl, rfl⟩ := Prod.mk.inj same
  obtain ⟨_, _, h⟩ := bind_ok.mp h
  split at h
  · rw [← pure_ok.mp h]
    exact .refl inv
  split at h
  · exact finish_keeps inv h
  split at h
  · rw [← pure_ok.mp h]
    exact .refl inv
  · rw [← pure_ok.mp h]
    exact inv.begin

theorem acceptUploadSource_keeps {source : SourceRef} (inv : RowInv enc request row)
    (h : acceptUploadSource enc request row claim source now = .ok row') :
    Keeps enc request row row' := by
  unfold acceptUploadSource at h
  obtain ⟨⟨plan, selected⟩, found, h⟩ := bind_ok.mp h
  obtain ⟨_, _, same⟩ := context_ok.mp found
  obtain ⟨rfl, rfl⟩ := Prod.mk.inj same
  obtain ⟨_, valid, h⟩ := bind_ok.mp h
  obtain ⟨_, checked, h⟩ := bind_ok.mp h
  obtain ⟨samePlan, _, _, thaw⟩ := ensure_ok.mp checked
  obtain ⟨_, _, h⟩ := bind_ok.mp h
  have unretired : row.file.sourceRetiredAt = none := by
    by_contra done
    exact (inv.retired done).1 thaw
  have accepted : RowInv enc request { row with file := { row.file with sourceRef := some source } } := by
    obtain ⟨⟨a, b, c, d, e, f, g, i, _, j, k⟩, thawed, _, _, noReceipt⟩ := inv
    refine ⟨⟨a, b, c, d, e, f, g, i, ?_, j, k⟩, thawed, fun frozen => absurd thaw frozen,
      fun done => absurd unretired done, noReceipt⟩
    intro r chosen
    cases chosen
    exact ⟨mapError_ok.mp valid, samePlan⟩
  obtain ⟨kept, grown, same⟩ := finish_keeps accepted h
  refine ⟨kept, ⟨grown.plan, fun frozen => absurd thaw frozen, fun absent => ?_, fun r saved => ?_⟩,
    same⟩
  · cases grown.unselected absent
  · rw [inv.unretired unretired] at saved
    cases saved

/-! ### Source cleanup -/

theorem manifest_ok {saved : SourceCleanupManifest} :
    manifest enc request row = .ok saved ↔
      Identified enc request row ∧ row.file.sourceFrozenAt ≠ none ∧
        row.file.sourceCleanupManifest = some row.frozenManifest ∧ saved = row.frozenManifest := by
  simp only [manifest, bind_ok, sourceIdentity_ok, ensure_ok, okOr_ok, pure_ok]
  constructor
  · rintro ⟨_, ⟨known, rfl⟩, _, found, _, ⟨rfl, frozen⟩, rfl⟩
    exact ⟨known, frozen, found, rfl⟩
  · rintro ⟨known, frozen, found, rfl⟩
    exact ⟨_, ⟨known, rfl⟩, _, found, (), ⟨rfl, frozen⟩, rfl⟩

theorem RowInv.manifest (inv : RowInv enc request row) (frozen : row.file.sourceFrozenAt ≠ none) :
    manifest enc request row = .ok row.frozenManifest :=
  manifest_ok.mpr ⟨inv.identified, frozen, inv.frozen frozen, rfl⟩

theorem claimFileSourceCleanup_keeps {lease : ℤ} (inv : RowInv enc request row)
    (h : claimFileSourceCleanup enc request row lease now = .ok row') :
    Keeps enc request row row' := by
  unfold claimFileSourceCleanup at h
  obtain ⟨_, _, h⟩ := bind_ok.mp h
  obtain ⟨_, checked, h⟩ := bind_ok.mp h
  obtain ⟨unretired, _⟩ := ensure_ok.mp checked
  obtain ⟨⟨plan, selected⟩, found, h⟩ := bind_ok.mp h
  obtain ⟨_, same⟩ := sourceIdentity_ok.mp found
  obtain ⟨rfl, rfl⟩ := Prod.mk.inj same
  obtain ⟨saved, chosen, h⟩ := bind_ok.mp h
  rw [← pure_ok.mp h]
  have manifest : row.file.sourceCleanupManifest.getD saved = row.frozenManifest := by
    by_cases thaw : row.file.sourceFrozenAt = none
    · rw [if_pos thaw] at chosen
      rw [inv.thawed thaw, ← Except.ok.inj chosen]
      rfl
    · rw [inv.frozen thaw]
      rfl
  obtain ⟨⟨a, b, c, d, e, f, g, i, j, k, l⟩, thawed, frozen, _, noReceipt⟩ := inv
  refine ⟨⟨⟨a, b, c, d, e, f, g, i, j, k, l⟩, nofun, fun _ => ?_,
    fun done => absurd unretired done, noReceipt⟩,
    ⟨rfl, fun _ => ⟨by simp, rfl⟩, id, fun _ saved => saved⟩, rfl⟩
  exact congrArg some manifest

theorem deferFileSourceCleanup_keeps {delay : ℤ} (inv : RowInv enc request row)
    (h : deferFileSourceCleanup row cleanup delay now = .ok row') :
    Keeps enc request row row' := by
  unfold deferFileSourceCleanup at h
  obtain ⟨_, _, h⟩ := bind_ok.mp h
  obtain ⟨_, checked, h⟩ := bind_ok.mp h
  obtain ⟨_, _, _, unretired⟩ := ensure_ok.mp checked
  rw [← pure_ok.mp h]
  obtain ⟨⟨a, b, c, d, e, f, g, i, j, k, l⟩, thawed, frozen, _, noReceipt⟩ := inv
  exact ⟨⟨⟨a, b, c, d, e, f, g, i, j, k, l⟩, thawed, frozen, fun done => absurd unretired done,
    noReceipt⟩, ⟨rfl, fun frozen => ⟨frozen, rfl⟩, id, fun _ saved => saved⟩, rfl⟩

/-- What a successful completion did: recorded the receipt it checked, or found it recorded. -/
theorem completeFileSourceCleanup_keeps {receipt : SourceRetirement} (inv : RowInv enc request row)
    (h : completeFileSourceCleanup enc request row cleanup receipt now = .ok row') :
    RowInv enc request row' ∧ Grows row row' ∧ row'.file.sourceRetirement = some receipt := by
  unfold completeFileSourceCleanup at h
  obtain ⟨m, found, h⟩ := bind_ok.mp h
  obtain ⟨_, isFrozen, _, rfl⟩ := manifest_ok.mp found
  obtain ⟨_, valid, h⟩ := bind_ok.mp h
  obtain ⟨_, selected, h⟩ := bind_ok.mp h
  have evidence : Evidence enc row receipt := ⟨mapError_ok.mp valid, ensure_ok.mp selected⟩
  split at h
  next done =>
    obtain ⟨retained, saved, h⟩ := bind_ok.mp h
    obtain ⟨_, _, h⟩ := bind_ok.mp h
    obtain ⟨_, same, h⟩ := bind_ok.mp h
    rw [← pure_ok.mp h]
    refine ⟨inv, .refl row, ?_⟩
    rw [← ensure_ok.mp same]
    exact okOr_ok.mp saved
  next open_ =>
    obtain ⟨_, _, h⟩ := bind_ok.mp h
    obtain ⟨_, _, h⟩ := bind_ok.mp h
    rw [← pure_ok.mp h]
    have unretired : row.file.sourceRetiredAt = none := not_not.mp open_
    obtain ⟨⟨a, b, c, d, e, f, g, i, j, k, l⟩, thawed, frozen, _, noReceipt⟩ := inv
    refine ⟨⟨⟨a, b, c, d, e, f, g, i, j, k, l⟩, thawed, frozen,
      fun _ => ⟨isFrozen, rfl, receipt, rfl, evidence.valid, evidence.selected⟩, nofun⟩,
      ⟨rfl, fun frozen => ⟨frozen, rfl⟩, id, fun r saved => ?_⟩, rfl⟩
    rw [noReceipt unretired] at saved
    cases saved

/-! ### The reader -/

/-- A recorded receipt passes the reader exactly when it names the selected source. -/
theorem validateRetired_iff {receipt : SourceRetirement} (inv : RowInv enc request row)
    (recorded : row.file.sourceRetirement = some receipt) :
    validateRetired enc request row = .ok row.file.plan ↔
      receipt.previous = row.file.sourceRef := by
  have done : row.file.sourceRetiredAt ≠ none := by
    intro absent
    rw [inv.unretired absent] at recorded
    cases recorded
  obtain ⟨frozen, lease, saved, same, evidence⟩ := inv.retired done
  obtain rfl : saved = receipt := Option.some.inj (same.symm.trans recorded)
  simp only [validateRetired, bind_ok, inv.manifest frozen, ensure_ok, okOr_ok, mapError_ok, pure_ok]
  constructor
  · rintro ⟨_, frozen, _, _, again, found, _, _, _, matched, _⟩
    rw [recorded] at found
    cases frozen
    cases found
    exact matched
  · intro matched
    exact ⟨_, rfl, (), ⟨done, lease⟩, _, recorded, (), evidence.valid, (), matched, rfl⟩

/-- The checks completion made leave one gap: a receipt that names a source nobody selected. -/
theorem Evidence.previous_iff {receipt : SourceRetirement} (evidence : Evidence enc row receipt) :
    receipt.previous = row.file.sourceRef ↔
      row.file.sourceRef.isSome = true ∨ receipt.previous = none := by
  cases chosen : row.file.sourceRef with
  | none => simp
  | some r => simp [evidence.selected r chosen]

end HudsonSandbox.Store
