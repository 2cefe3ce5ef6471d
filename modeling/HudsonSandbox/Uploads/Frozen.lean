import HudsonSandbox.Sources.Cleanup
import HudsonSandbox.Uploads.Effects

/-!
# Frozen sources

Once source cleanup froze an upload, no transaction mutates it any more, and its retirement is
recorded once, by the holder of a live cleanup claim.
-/

namespace HudsonSandbox.Uploads
open Checked Store GuestModel LiveOutput Supervisor SupervisorFiles Files FileDownloads FileSources
  Artifacts Run

/-- A committed step of the upload itself: the source it takes, and what it lets a host do. -/
inductive Mutation where
  | acceptSource | begin | write | confirmWrite | commit
  deriving DecidableEq, Repr

section
variable (enc : Encoding) (request : SandboxId → UploadInput → BitVec 256) (file : FileEncoding)

def UploadAction.mutation : UploadAction → Option Mutation
  | .begin _ => some .begin
  | .write _ _ _ _ => some .write
  | .commit _ => some .commit
  | .rejected | .source _ | .abort _ | .inspect _ => none

/-- The mutation that an event commits, if it commits one. -/
def mutates (row : Progress) : UploadEvent → Option Mutation
  | .prepareUpload claim host epoch first authority now =>
    match prepareUpload enc request file row claim host epoch first authority now with
    | .ok (_, action) => action.mutation
    | .error _ => none
  | .acceptUploadSource claim source now =>
    match acceptUploadSource enc request file row claim source now with
    | .ok _ => some .acceptSource
    | .error _ => none
  | .confirmUploadWrite claim asked source offset authority now =>
    match confirmUploadWrite enc request file row claim asked source offset authority now with
    | .ok _ => some .confirmWrite
    | .error _ => none
  | _ => none

/-- The time of a retirement that an event records. -/
def retires (row : Progress) (event : UploadEvent) : Option Time :=
  if (uploadStep enc request file row event).file.sourceRetiredAt = row.file.sourceRetiredAt then none
  else (uploadStep enc request file row event).file.sourceRetiredAt

end

/-- A retirement by the holder of the live cleanup claim, when the source may be deleted. -/
def RetiresLawfully (row : Progress) : UploadEvent → Prop
  | .completeFileSourceCleanup claim _ now =>
    row.file.operationId = claim.operationId ∧ row.file.sourceCleanupRevision = claim.revision ∧
      Pending row.file.sourceCleanupLeaseUntil now ∧ row.file.plan.deleteAfterUnixMs * 1000 ≤ now ∧
      row.op.deadline + seconds 300 ≤ now
  | _ => False

section Frozen
variable {enc : Encoding} {request : SandboxId → UploadInput → BitVec 256} {file : FileEncoding}
  {row row' : Progress} {claim : Claim} {now : Time} {c : Context}

def ProgressInv (enc : Encoding) (request : SandboxId → UploadInput → BitVec 256) (row : Progress) : Prop :=
  RowInv enc request row.toUploadRow

theorem Settled.keeps {status : Store.Status} (inv : RowInv enc request row.toUploadRow)
    (settled : Settled row row' status) : Keeps enc request row.toUploadRow row'.toUploadRow := by
  obtain ⟨op, rfl⟩ := settled.rest
  exact inv.reclaim rfl rfl settled.pinned

theorem Prepared.keeps {action : UploadAction} (inv : RowInv enc request row.toUploadRow)
    (prepared : Prepared enc row claim now row' action) :
    Keeps enc request row.toUploadRow row'.toUploadRow := by
  cases prepared with
  | rejected fresh settled => exact settled.keeps inv
  | source fresh => exact .refl inv
  | begin fresh thawed selected => exact inv.begin
  | abort begun open_ => exact inv.reclaim rfl rfl rfl
  | inspect begun => exact .refl inv
  | write begun inspected uncommitted unaborted staging thawed selected short => exact .refl inv
  | commit begun inspected uncommitted unaborted staging thawed whole => exact inv.reclaim rfl rfl rfl

theorem uploadUnknown_keeps (inv : RowInv enc request row.toUploadRow)
    (h : uploadUnknown enc request file row claim now = .ok row') :
    Keeps enc request row.toUploadRow row'.toUploadRow := by
  obtain ⟨_, needsInspect, settled⟩ := uploadUnknown_settled h
  have keeps : Keeps enc request ({ row with needsInspect } : Progress).toUploadRow row'.toUploadRow :=
    settled.keeps inv
  exact keeps

theorem observeUpload_keeps {o : FileObservation} {written : Option ℕ} {allowSimulated : Bool}
    (inv : RowInv enc request row.toUploadRow)
    (h : observeUpload enc request file row claim o written allowSimulated now = .ok row') :
    Keeps enc request row.toUploadRow row'.toUploadRow := by
  obtain ⟨_, _, unknown | observed⟩ := observeUpload_observed h
  · exact uploadUnknown_keeps inv unknown
  · obtain ⟨record, kept, cursor, _, _, _, settled⟩ := observed.settled
    have keeps : Keeps enc request ({ row with
        written := cursor, record := some kept,
        needsInspect := decide (observedState o record ≠ 1) } : Progress).toUploadRow row'.toUploadRow :=
      settled.keeps inv
    exact keeps

/-- Every committed transaction keeps the row consistent and undoes nothing that is settled. -/
theorem transact_keeps {event : UploadEvent} (inv : ProgressInv enc request row)
    (h : transact enc request file row event = .ok row') :
    ProgressInv enc request row' ∧ Grows row.toUploadRow row'.toUploadRow := by
  have keep : Keeps enc request row.toUploadRow row'.toUploadRow →
      ProgressInv enc request row' ∧ Grows row.toUploadRow row'.toUploadRow :=
    fun keeps => ⟨keeps.inv, keeps.grows⟩
  cases event with
  | claimUpload lease now =>
    obtain ⟨base, made, rfl⟩ := onRow_ok h
    exact keep (claimUpload_keeps inv made)
  | renewUpload claim lease now =>
    obtain ⟨base, made, rfl⟩ := onRow_ok h
    exact keep (renewUpload_keeps inv made)
  | deferUpload claim delay now =>
    obtain ⟨base, made, rfl⟩ := onRow_ok h
    exact keep (deferUpload_keeps inv made)
  | prepareUpload claim host epoch first authority now =>
    obtain ⟨⟨next, action⟩, made, rfl⟩ := map_ok.mp h
    obtain ⟨_, _, prepared⟩ := prepareUpload_prepared made
    exact keep (prepared.keeps inv)
  | acceptUploadSource claim source now =>
    obtain ⟨base, accepted, rfl⟩ := acceptUploadSource_base h
    exact keep (acceptUploadSource_keeps inv accepted)
  | uploadUnknown claim now => exact keep (uploadUnknown_keeps inv h)
  | confirmUploadWrite claim asked source offset authority now =>
    obtain ⟨_, _, rfl⟩ := map_ok.mp h
    exact ⟨inv, .refl _⟩
  | observeUpload claim o written allowSimulated now => exact keep (observeUpload_keeps inv h)
  | claimFileSourceCleanup lease now =>
    obtain ⟨base, made, rfl⟩ := onRow_ok h
    exact keep (claimFileSourceCleanup_keeps inv made)
  | completeFileSourceCleanup claim receipt now =>
    obtain ⟨base, made, rfl⟩ := onRow_ok h
    obtain ⟨inv, grows, _⟩ := completeFileSourceCleanup_keeps inv made
    exact ⟨inv, grows⟩
  | deferFileSourceCleanup claim delay now =>
    obtain ⟨base, made, rfl⟩ := onRow_ok h
    exact keep (deferFileSourceCleanup_keeps inv made)

theorem uploadStep_keeps (file : FileEncoding) (row : Progress) (event : UploadEvent) (inv : ProgressInv enc request row) :
    ProgressInv enc request (uploadStep enc request file row event) ∧
      Grows row.toUploadRow (uploadStep enc request file row event).toUploadRow :=
  commit_keeps (P := fun next => ProgressInv enc request next ∧ Grows row.toUploadRow next.toUploadRow)
    ⟨inv, .refl _⟩ fun _ h => transact_keeps inv h

theorem uploadStep_inv (row : Progress) (event : UploadEvent) (inv : ProgressInv enc request row) :
    ProgressInv enc request (uploadStep enc request file row event) :=
  (uploadStep_keeps file row event inv).1

theorem run_keeps {events : List UploadEvent} (inv : ProgressInv enc request row) :
    Grows row.toUploadRow (run (uploadStep enc request file) row events).toUploadRow := by
  induction events generalizing row with
  | nil => exact .refl _
  | cons event rest ih =>
    obtain ⟨next, grows⟩ := uploadStep_keeps file row event inv
    exact grows.trans (ih next)

/-! ### No mutation of a frozen upload -/

theorem mutates_thawed {event : UploadEvent} {mutation : Mutation}
    (h : mutates enc request file row event = some mutation) : row.file.sourceFrozenAt = none := by
  unfold mutates at h
  split at h
  next claim host epoch first authority now =>
    split at h
    next next action made =>
      obtain ⟨_, _, prepared⟩ := prepareUpload_prepared made
      cases prepared with
      | begin fresh thawed selected => exact thawed
      | write begun inspected uncommitted unaborted staging thawed selected short => exact thawed
      | commit begun inspected uncommitted unaborted staging thawed whole => exact thawed
      | rejected fresh settled => cases h
      | source fresh => cases h
      | abort begun open_ => cases h
      | inspect begun => cases h
    · cases h
  next claim source now =>
    split at h
    next next made =>
      obtain ⟨base, accepted, _⟩ := acceptUploadSource_base made
      unfold Store.acceptUploadSource at accepted
      obtain ⟨_, _, accepted⟩ := bind_ok.mp accepted
      obtain ⟨_, _, accepted⟩ := bind_ok.mp accepted
      obtain ⟨_, checked, _⟩ := bind_ok.mp accepted
      exact (ensure_ok.mp checked).2.2.2
    · cases h
  next claim asked source offset authority now =>
    split at h
    next confirmed => exact (confirmUploadWrite_ok confirmed).thawed
    · cases h
  · cases h

/-- The freeze is the mark under which nothing mutates. -/
theorem frozen_bars : Bars (uploadStep enc request file) (ProgressInv enc request)
    (mutates enc request file) fun row => row.file.sourceFrozenAt ≠ none := by
  refine ⟨uploadStep_inv, ?_, ?_⟩
  · intro row event inv frozen
    exact ((uploadStep_keeps file row event inv).2.frozen frozen).1
  · intro row event mutation _ mutated frozen
    exact frozen (mutates_thawed mutated)

/-! ### Retirement -/

theorem Settled.same_file {status : Store.Status} (settled : Settled row row' status) : row'.file = row.file := by
  obtain ⟨op, rfl⟩ := settled.rest
  rfl

theorem Prepared.retiredAt {action : UploadAction} (prepared : Prepared enc row claim now row' action) :
    row'.file.sourceRetiredAt = row.file.sourceRetiredAt := by
  cases prepared with
  | rejected fresh settled => rw [settled.same_file]
  | source fresh => rfl
  | begin fresh thawed selected => rfl
  | abort begun open_ => rfl
  | inspect begun => rfl
  | write begun inspected uncommitted unaborted staging thawed selected short => rfl
  | commit begun inspected uncommitted unaborted staging thawed whole => rfl

theorem uploadUnknown_file (h : uploadUnknown enc request file row claim now = .ok row') :
    row'.file = row.file := by
  obtain ⟨_, needsInspect, settled⟩ := uploadUnknown_settled h
  exact settled.same_file

theorem observeUpload_file {o : FileObservation} {written : Option ℕ} {allowSimulated : Bool}
    (h : observeUpload enc request file row claim o written allowSimulated now = .ok row') :
    row'.file = row.file := by
  obtain ⟨_, _, unknown | observed⟩ := observeUpload_observed h
  · exact uploadUnknown_file unknown
  · obtain ⟨_, _, _, _, _, _, settled⟩ := observed.settled
    exact settled.same_file

theorem acceptUploadSource_retiredAt {source : SourceRef}
    (h : acceptUploadSource enc request file row claim source now = .ok row') :
    row'.file.sourceRetiredAt = row.file.sourceRetiredAt := by
  obtain ⟨base, accepted, rfl⟩ := acceptUploadSource_base h
  unfold Store.acceptUploadSource at accepted
  obtain ⟨_, _, accepted⟩ := bind_ok.mp accepted
  obtain ⟨_, _, accepted⟩ := bind_ok.mp accepted
  obtain ⟨_, _, accepted⟩ := bind_ok.mp accepted
  obtain ⟨_, _, accepted⟩ := bind_ok.mp accepted
  rw [(finish_ok accepted).1]

theorem claimFileSourceCleanup_retiredAt {base : UploadRow} {lease : ℤ}
    (h : claimFileSourceCleanup enc request row.toUploadRow lease now = .ok base) :
    base.file.sourceRetiredAt = row.file.sourceRetiredAt := by
  unfold claimFileSourceCleanup at h
  obtain ⟨_, _, h⟩ := bind_ok.mp h
  obtain ⟨_, _, h⟩ := bind_ok.mp h
  obtain ⟨_, _, h⟩ := bind_ok.mp h
  obtain ⟨_, _, h⟩ := bind_ok.mp h
  rw [← pure_ok.mp h]

theorem deferFileSourceCleanup_retiredAt {base : UploadRow} {cleanup : SourceCleanupClaim} {delay : ℤ}
    (h : deferFileSourceCleanup row.toUploadRow cleanup delay now = .ok base) :
    base.file.sourceRetiredAt = row.file.sourceRetiredAt := by
  unfold deferFileSourceCleanup at h
  obtain ⟨_, _, h⟩ := bind_ok.mp h
  obtain ⟨_, _, h⟩ := bind_ok.mp h
  rw [← pure_ok.mp h]

/-- A completion finds the receipt recorded, or records it under the live claim. -/
theorem completeFileSourceCleanup_retiredAt {base : UploadRow} {cleanup : SourceCleanupClaim}
    {receipt : SourceRetirement}
    (h : completeFileSourceCleanup enc request row.toUploadRow cleanup receipt now = .ok base) :
    base = row.toUploadRow ∨ row.file.sourceRetiredAt = none ∧ base.file.sourceRetiredAt = some now ∧
      RetiresLawfully row (.completeFileSourceCleanup cleanup receipt now) := by
  unfold completeFileSourceCleanup at h
  obtain ⟨m, found, h⟩ := bind_ok.mp h
  obtain ⟨_, _, _, rfl⟩ := manifest_ok.mp found
  obtain ⟨_, _, h⟩ := bind_ok.mp h
  obtain ⟨_, _, h⟩ := bind_ok.mp h
  split at h
  · obtain ⟨_, _, h⟩ := bind_ok.mp h
    obtain ⟨_, _, h⟩ := bind_ok.mp h
    obtain ⟨_, _, h⟩ := bind_ok.mp h
    exact .inl (pure_ok.mp h).symm
  next open_ =>
    obtain ⟨_, fenced, h⟩ := bind_ok.mp h
    obtain ⟨_, _, h⟩ := bind_ok.mp h
    unfold fence at fenced
    obtain ⟨_, checked, _⟩ := bind_ok.mp fenced
    obtain ⟨operation, revision, _, _, pending, deleted, expired⟩ := ensure_ok.mp checked
    rw [← pure_ok.mp h]
    refine .inr ⟨not_not.mp open_, rfl, operation, revision, pending, deleted, ?_⟩
    have past : row.op.deadline ≤ now - seconds 300 := expired
    exact add_le_of_le_sub_right past

/-- Only a lawful completion ever records a retirement. -/
theorem transact_retiredAt {event : UploadEvent} (h : transact enc request file row event = .ok row') :
    row'.file.sourceRetiredAt = row.file.sourceRetiredAt ∨
      row.file.sourceRetiredAt = none ∧ row'.file.sourceRetiredAt ≠ none ∧ RetiresLawfully row event := by
  cases event with
  | claimUpload lease now =>
    obtain ⟨base, made, rfl⟩ := onRow_ok h
    unfold claimUpload at made
    obtain ⟨_, _, made⟩ := bind_ok.mp made
    rw [← pure_ok.mp made]
    exact .inl rfl
  | renewUpload claim lease now =>
    obtain ⟨base, made, rfl⟩ := onRow_ok h
    unfold renewUpload at made
    obtain ⟨_, _, made⟩ := bind_ok.mp made
    rw [← pure_ok.mp made]
    exact .inl rfl
  | deferUpload claim delay now =>
    obtain ⟨base, made, rfl⟩ := onRow_ok h
    unfold deferUpload at made
    obtain ⟨_, _, made⟩ := bind_ok.mp made
    rw [← pure_ok.mp made]
    exact .inl rfl
  | prepareUpload claim host epoch first authority now =>
    obtain ⟨⟨next, action⟩, made, rfl⟩ := map_ok.mp h
    obtain ⟨_, _, prepared⟩ := prepareUpload_prepared made
    exact .inl prepared.retiredAt
  | acceptUploadSource claim source now => exact .inl (acceptUploadSource_retiredAt h)
  | uploadUnknown claim now => exact .inl (by rw [uploadUnknown_file h])
  | confirmUploadWrite claim asked source offset authority now =>
    obtain ⟨_, _, rfl⟩ := map_ok.mp h
    exact .inl rfl
  | observeUpload claim o written allowSimulated now => exact .inl (by rw [observeUpload_file h])
  | claimFileSourceCleanup lease now =>
    obtain ⟨base, made, rfl⟩ := onRow_ok h
    exact .inl (claimFileSourceCleanup_retiredAt made)
  | completeFileSourceCleanup claim receipt now =>
    obtain ⟨base, made, rfl⟩ := onRow_ok h
    rcases completeFileSourceCleanup_retiredAt made with rfl | ⟨open_, recorded, lawful⟩
    · exact .inl rfl
    · refine .inr ⟨open_, ?_, lawful⟩
      rw [recorded]
      exact Option.some_ne_none now
  | deferFileSourceCleanup claim delay now =>
    obtain ⟨base, made, rfl⟩ := onRow_ok h
    exact .inl (deferFileSourceCleanup_retiredAt made)

variable (enc request file) in
theorem uploadStep_retiredAt (row : Progress) (event : UploadEvent) :
    (uploadStep enc request file row event).file.sourceRetiredAt = row.file.sourceRetiredAt ∨
      row.file.sourceRetiredAt = none ∧
        (uploadStep enc request file row event).file.sourceRetiredAt ≠ none ∧ RetiresLawfully row event := by
  unfold uploadStep
  cases made : transact enc request file row event with
  | error error => exact .inl rfl
  | ok next => exact transact_retiredAt made

theorem retires_ok {event : UploadEvent} {at_ : Time} (h : retires enc request file row event = some at_) :
    row.file.sourceRetiredAt = none ∧
      (uploadStep enc request file row event).file.sourceRetiredAt ≠ none ∧ RetiresLawfully row event := by
  unfold retires at h
  split at h
  · cases h
  next changed =>
    rcases uploadStep_retiredAt enc request file row event with same | recorded
    · exact absurd same changed
    · exact recorded

theorem retires_marks : Marks (uploadStep enc request file) (ProgressInv enc request)
    (retires enc request file) fun row => row.file.sourceRetiredAt ≠ none := by
  refine ⟨⟨uploadStep_inv, ?_, ?_⟩, ?_⟩
  · intro row event _ done
    rcases uploadStep_retiredAt enc request file row event with same | ⟨open_, _, _⟩
    · rw [same]
      exact done
    · exact absurd open_ done
  · intro row event at_ _ recorded done
    exact done (retires_ok recorded).1
  · intro row event at_ _ recorded
    exact (retires_ok recorded).2.1

theorem admittedProgress_inv {r : UploadCommand} {id attempt : OperationId} {allocation : Allocation}
    {admission : Time} {expiresAt : Option Time} {base : UploadRow}
    (admitted : admitUpload request r id attempt allocation admission expiresAt = .ok base) :
    ProgressInv enc request (Progress.admitted base) :=
  admitUpload_inv admitted

/-- Whatever uploads and source cleanup do to each other: after the freeze nothing mutates and the
selection stays, and one retirement is recorded, by the holder of the live cleanup claim, after the
plan's deletion time and five minutes past the deadline. -/
theorem frozen_upload {r : UploadCommand} {id attempt : OperationId} {allocation : Allocation}
    {admission : Time} {expiresAt : Option Time} {base : UploadRow}
    (admitted : admitUpload request r id attempt allocation admission expiresAt = .ok base)
    (before after : List UploadEvent) :
    let step := uploadStep enc request file
    let start := Progress.admitted base
    let middle := run step start before
    let last := run step middle after
    (middle.file.sourceFrozenAt ≠ none →
      answers step (mutates enc request file) middle after = [] ∧
        last.file.sourceFrozenAt ≠ none ∧ last.file.sourceRef = middle.file.sourceRef ∧
        last.file.sourceCleanupManifest = middle.file.sourceCleanupManifest) ∧
    (answers step (retires enc request file) start before).length ≤ 1 ∧
    Along step (fun row event => (step row event).file.sourceRetiredAt ≠ row.file.sourceRetiredAt →
      RetiresLawfully row event) start before ∧
    ∀ receipt, middle.file.sourceRetirement = some receipt → last.file.sourceRetirement = some receipt := by
  intro step start middle last
  have inv : ProgressInv enc request start := admittedProgress_inv admitted
  have reached : ProgressInv enc request middle := run_invariant uploadStep_inv inv
  have grows : Grows middle.toUploadRow last.toUploadRow := run_keeps reached
  refine ⟨fun frozen => ?_, retires_marks.answers_le_one inv, ?_, grows.receipt⟩
  · obtain ⟨still, selected⟩ := grows.frozen frozen
    have ending : ProgressInv enc request last := run_invariant uploadStep_inv reached
    refine ⟨frozen_bars.answers_nil reached frozen, still, selected, ?_⟩
    rw [ending.frozen still, reached.frozen frozen]
    unfold UploadRow.frozenManifest
    rw [grows.plan, selected]
  · refine along_of fun row event => ?_
    intro changed
    rcases uploadStep_retiredAt enc request file row event with same | ⟨_, _, lawful⟩
    · exact absurd same changed
    · exact lawful

end Frozen

/-! ### A source that was accepted, frozen and retired -/

namespace FrozenSample
open Store.Sample

def fileEncoding : FileEncoding where
  length _ := 0
  sha256 _ := Vector.replicate 32 0

def claim : Claim := { operationId := ⟨5⟩, revision := 1 }

def frozen : List UploadEvent :=
  [.claimUpload 60 (admission + 1), .acceptUploadSource claim source (admission + 2),
    .claimFileSourceCleanup 120 late, .completeFileSourceCleanup cleanup receipt (late + 1)]

/-- A controller that goes on as if nothing had happened. -/
def resumed : List UploadEvent :=
  [.claimUpload 60 (late + 2), .prepareUpload ⟨⟨5⟩, 2⟩ ⟨4⟩ 1 ⟨true, admission + 3⟩ true (late + 3)]

theorem frozen_never_mutated :
    answers (uploadStep encoding request fileEncoding) (mutates encoding request fileEncoding)
      (run (uploadStep encoding request fileEncoding) (.admitted row) frozen) resumed = [] := by
  have both := @frozen_upload encoding request fileEncoding _ _ _ _ _ _ _ admitted frozen resumed
  exact (both.1 (by decide +kernel)).1

example : (answers (uploadStep encoding request fileEncoding) (retires encoding request fileEncoding)
    (.admitted row) frozen) = [late + 1] := by decide +kernel

end FrozenSample
end HudsonSandbox.Uploads
