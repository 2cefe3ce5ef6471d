import HudsonSandbox.Store.Claims
import HudsonSandbox.Uploads.Effects

/-!
# Claims of every operation

The claims of an upload, and with them those of all kinds of operations: creates and destroys,
commands, cancellations and uploads.
-/

namespace HudsonSandbox.Uploads
open Checked Store GuestModel LiveOutput Supervisor SupervisorFiles Files FileSources Artifacts Run Leases

section Upload
variable {enc : Encoding} {request : SandboxId → UploadInput → BitVec 256} {file : FileEncoding}
  {row row' : Progress} {claim : Claim} {now : Time}

/-- A transaction under a live claim of the upload. -/
structure UploadGuarded (row : Progress) (claim : Claim) (now : Time) (row' : Progress) : Prop where
  fenced : row.op.Fenced claim now
  advances : row.op.Advances now row'.op.toOperation

theorem Settled.guarded {middle : Progress} {status : Store.Status} (settled : Settled middle row' status)
    (fenced : row.op.Fenced claim now) (same : middle.op = row.op) : UploadGuarded row claim now row' := by
  have pinned := settled.pinned
  have revision := settled.revision
  rw [same] at pinned revision
  have id : row'.op.id = row.op.id := congrArg (·.1) pinned
  have attempts : row'.op.attemptCount = row.op.attemptCount := congrArg (·.2.2.2.2.2.2.2.2.1) pinned
  exact ⟨fenced, .of_fenced fenced id attempts.ge revision.ge⟩

theorem prepareUpload_guarded {host : HostId} {epoch : ℤ} {first : Reading} {authority : Bool}
    {action : UploadAction}
    (h : prepareUpload enc request file row claim host epoch first authority now = .ok (row', action)) :
    UploadGuarded row claim now row' := by
  obtain ⟨fenced, known, prepared⟩ := prepareUpload_prepared h
  have still : UploadGuarded row claim now row := ⟨fenced, .refl now _⟩
  cases prepared with
  | rejected fresh settled => exact settled.guarded fenced rfl
  | source fresh => exact still
  | begin fresh thawed selected =>
    have attempts := known.attempts
    rw [fresh] at attempts
    have counted : row.op.attemptCount ≤ 1 := by
      rw [attempts]
      decide
    exact ⟨fenced, .of_fenced fenced rfl counted le_rfl⟩
  | abort begun open_ => exact ⟨fenced, .of_fenced fenced rfl le_rfl le_rfl⟩
  | inspect begun => exact still
  | write begun inspected uncommitted unaborted staging thawed selected short => exact still
  | commit begun inspected uncommitted unaborted staging thawed whole =>
    exact ⟨fenced, .of_fenced fenced rfl le_rfl le_rfl⟩

theorem acceptUploadSource_guarded {source : SourceRef}
    (h : acceptUploadSource enc request file row claim source now = .ok row') :
    UploadGuarded row claim now row' := by
  obtain ⟨base, accepted, rfl⟩ := acceptUploadSource_base h
  unfold Store.acceptUploadSource at accepted
  obtain ⟨_, found, accepted⟩ := bind_ok.mp accepted
  have fenced := (context_ok.mp found).1
  iterate 3 obtain ⟨_, _, accepted⟩ := bind_ok.mp accepted
  unfold Store.finish at accepted
  obtain ⟨_, _, accepted⟩ := bind_ok.mp accepted
  rw [← pure_ok.mp accepted]
  exact ⟨fenced, .of_fenced fenced rfl le_rfl le_rfl⟩

theorem uploadUnknown_guarded (h : uploadUnknown enc request file row claim now = .ok row') :
    UploadGuarded row claim now row' := by
  obtain ⟨fenced, needsInspect, settled⟩ := uploadUnknown_settled h
  exact settled.guarded fenced rfl

theorem observeUpload_guarded {o : FileObservation} {written : Option ℕ} {allowSimulated : Bool}
    (h : observeUpload enc request file row claim o written allowSimulated now = .ok row') :
    UploadGuarded row claim now row' := by
  obtain ⟨fenced, _, unknown | observed⟩ := observeUpload_observed h
  · exact uploadUnknown_guarded unknown
  · obtain ⟨_, _, _, _, _, _, settled⟩ := observed.settled
    exact settled.guarded fenced rfl

theorem claimUpload_advances {base : UploadRow} {lease : ℤ}
    (h : claimUpload row.toUploadRow lease now = .ok base) :
    row.op.Advances now base.op.toOperation ∧ base.op.toOperation = row.op.claimNext lease now := by
  unfold claimUpload at h
  obtain ⟨_, claimable, h⟩ := bind_ok.mp h
  rw [← pure_ok.mp h]
  exact ⟨claimNext_advances (ensure_ok.mp claimable).1, rfl⟩

theorem renewUpload_guarded {base : UploadRow} {lease : ℤ}
    (h : renewUpload row.toUploadRow claim lease now = .ok base) :
    UploadGuarded row claim now { row with toUploadRow := base } := by
  unfold renewUpload at h
  obtain ⟨_, fenced, h⟩ := bind_ok.mp h
  have fenced : row.op.Fenced claim now := ensure_ok.mp fenced
  rw [← pure_ok.mp h]
  exact ⟨fenced, .of_fenced fenced rfl le_rfl le_rfl⟩

theorem deferUpload_guarded {base : UploadRow} {delay : ℤ}
    (h : deferUpload row.toUploadRow claim delay now = .ok base) :
    UploadGuarded row claim now { row with toUploadRow := base } := by
  unfold deferUpload at h
  obtain ⟨_, fenced, h⟩ := bind_ok.mp h
  have fenced : row.op.Fenced claim now := ensure_ok.mp fenced
  rw [← pure_ok.mp h]
  exact ⟨fenced, .of_fenced fenced rfl le_rfl le_rfl⟩

/-- Source cleanup has claims of its own, and leaves the operation's alone. -/
theorem claimFileSourceCleanup_op {base : UploadRow} {lease : ℤ}
    (h : claimFileSourceCleanup enc request row.toUploadRow lease now = .ok base) : base.op = row.op := by
  unfold claimFileSourceCleanup at h
  iterate 4 obtain ⟨_, _, h⟩ := bind_ok.mp h
  rw [← pure_ok.mp h]

theorem completeFileSourceCleanup_op {base : UploadRow} {cleanup : SourceCleanupClaim}
    {receipt : SourceRetirement}
    (h : completeFileSourceCleanup enc request row.toUploadRow cleanup receipt now = .ok base) :
    base.op = row.op := by
  unfold completeFileSourceCleanup at h
  iterate 3 obtain ⟨_, _, h⟩ := bind_ok.mp h
  split at h
  · iterate 3 obtain ⟨_, _, h⟩ := bind_ok.mp h
    rw [← pure_ok.mp h]
  · iterate 2 obtain ⟨_, _, h⟩ := bind_ok.mp h
    rw [← pure_ok.mp h]

theorem deferFileSourceCleanup_op {base : UploadRow} {cleanup : SourceCleanupClaim} {delay : ℤ}
    (h : deferFileSourceCleanup row.toUploadRow cleanup delay now = .ok base) : base.op = row.op := by
  unfold deferFileSourceCleanup at h
  iterate 2 obtain ⟨_, _, h⟩ := bind_ok.mp h
  rw [← pure_ok.mp h]

end Upload

section Events
variable {enc : Encoding} {request : SandboxId → UploadInput → BitVec 256} {file : FileEncoding}
  {row row' : Progress}

def UploadEvent.clock : UploadEvent → Time
  | .claimUpload _ now | .renewUpload _ _ now | .deferUpload _ _ now | .prepareUpload _ _ _ _ _ now
  | .acceptUploadSource _ _ now | .uploadUnknown _ now | .confirmUploadWrite _ _ _ _ _ now
  | .observeUpload _ _ _ _ now | .claimFileSourceCleanup _ now | .completeFileSourceCleanup _ _ now
  | .deferFileSourceCleanup _ _ now => now

/-- The claim of the upload under which a transaction writes. -/
def UploadEvent.claim : UploadEvent → Option Claim
  | .renewUpload claim _ _ | .deferUpload claim _ _ | .prepareUpload claim _ _ _ _ _
  | .acceptUploadSource claim _ _ | .uploadUnknown claim _ | .confirmUploadWrite claim _ _ _ _ _
  | .observeUpload claim _ _ _ _ => some claim
  | .claimUpload _ _ | .claimFileSourceCleanup _ _ | .completeFileSourceCleanup _ _ _
  | .deferFileSourceCleanup _ _ _ => none

theorem transact_guarded {event : UploadEvent} {claim : Claim} (carried : event.claim = some claim)
    (h : transact enc request file row event = .ok row') : UploadGuarded row claim event.clock row' := by
  cases event with
  | renewUpload claim lease now =>
    cases carried
    obtain ⟨base, made, rfl⟩ := onRow_ok h
    exact renewUpload_guarded made
  | deferUpload claim delay now =>
    cases carried
    obtain ⟨base, made, rfl⟩ := onRow_ok h
    exact deferUpload_guarded made
  | prepareUpload claim host epoch first authority now =>
    cases carried
    obtain ⟨_, h⟩ := map_fst_ok h
    exact prepareUpload_guarded h
  | acceptUploadSource claim source now =>
    cases carried
    exact acceptUploadSource_guarded h
  | uploadUnknown claim now =>
    cases carried
    exact uploadUnknown_guarded h
  | confirmUploadWrite claim asked source offset authority now =>
    cases carried
    obtain ⟨_, made, rfl⟩ := map_ok.mp h
    exact ⟨(confirmUploadWrite_ok made).fenced, .refl _ _⟩
  | observeUpload claim o written allowSimulated now =>
    cases carried
    exact observeUpload_guarded h
  | claimUpload lease now => cases carried
  | claimFileSourceCleanup lease now => cases carried
  | completeFileSourceCleanup claim receipt now => cases carried
  | deferFileSourceCleanup claim delay now => cases carried

/-- The upload's operation row advances. -/
def UploadAdvances (now : Time) (row row' : Progress) : Prop := row.op.Advances now row'.op.toOperation

theorem transact_advances {event : UploadEvent} (h : transact enc request file row event = .ok row') :
    UploadAdvances event.clock row row' := by
  have kept : ∀ {result : Except DispatchError UploadRow}, row.onRow result = .ok row' →
      (∀ base, result = .ok base → base.op = row.op) → UploadAdvances event.clock row row' := by
    intro result made same
    obtain ⟨base, stored, rfl⟩ := onRow_ok made
    show row.op.Advances event.clock base.op.toOperation
    rw [same base stored]
    exact .refl _ _
  cases carried : event.claim with
  | some claim => exact (transact_guarded carried h).advances
  | none =>
    cases event with
    | claimUpload lease now =>
      obtain ⟨base, made, rfl⟩ := onRow_ok h
      exact (claimUpload_advances made).1
    | claimFileSourceCleanup lease now => exact kept h fun base made => claimFileSourceCleanup_op made
    | completeFileSourceCleanup claim receipt now =>
      exact kept h fun base made => completeFileSourceCleanup_op made
    | deferFileSourceCleanup claim delay now => exact kept h fun base made => deferFileSourceCleanup_op made
    | renewUpload claim lease now => cases carried
    | deferUpload claim delay now => cases carried
    | prepareUpload claim host epoch first authority now => cases carried
    | acceptUploadSource claim source now => cases carried
    | uploadUnknown claim now => cases carried
    | confirmUploadWrite claim asked source offset authority now => cases carried
    | observeUpload claim o written allowSimulated now => cases carried

def UploadEvent.Claims (row : Progress) : UploadEvent → Prop
  | .claimUpload lease now => (Store.claimUpload row.toUploadRow lease now).isOk = true
  | _ => False

instance (row : Progress) (event : UploadEvent) : Decidable (event.Claims row) := by
  unfold UploadEvent.Claims
  split <;> infer_instance

variable (enc request file) in
def uploadClaimed : ClaimedRow Progress UploadEvent where
  step := uploadStep enc request file
  clock event := some event.clock
  row row := some row.op.toOperation
  claims row event := event.Claims row
  claim := UploadEvent.claim

instance (row : Progress) (event : UploadEvent) :
    Decidable ((uploadClaimed enc request file).claims row event) :=
  inferInstanceAs (Decidable (event.Claims row))

theorem uploadClaimed_lawful (id : OperationId) : (uploadClaimed enc request file).Lawful id where
  advances := by
    intro row event now op found
    cases found
    have advances : UploadAdvances event.clock row (uploadStep enc request file row event) :=
      commit_keeps (.refl _ _) fun _ h => transact_advances h
    exact ⟨_, rfl, advances⟩
  claims := by
    intro row event claimed
    cases event with
    | claimUpload lease now =>
      have ok : (Store.claimUpload row.toUploadRow lease now).isOk = true := claimed
      cases result : Store.claimUpload row.toUploadRow lease now with
      | error error =>
        rw [result] at ok
        cases ok
      | ok base =>
        have stepped : (uploadClaimed enc request file).step row (.claimUpload lease now) =
            { row with toUploadRow := base } := by
          show commit row (row.onRow (Store.claimUpload row.toUploadRow lease now)) = _
          rw [result]
          rfl
        refine ⟨row.op.toOperation, lease, now, rfl, ?_⟩
        rw [stepped]
        exact congrArg some (claimUpload_advances result).2
    | _ => exact claimed.elim
  guards := by
    intro row event claim carried _ wrote
    have guarded : UploadGuarded row claim event.clock (uploadStep enc request file row event) :=
      commit_changed _ wrote fun _ h => transact_guarded carried h
    exact ⟨event.clock, _, rfl, rfl, guarded.fenced⟩

end Events

/-! ### All operations -/

/-- The claims of every operation exclude each other, in every run of the transactions on its rows
and for every advance of the database's clock: one revision is live at a time, every acquisition
hands out a greater one, and what is guarded by a superseded or expired claim writes nothing. -/
theorem operation_claims (commands : CommandEncoding) (enc : Encoding)
    (request : SandboxId → UploadInput → BitVec 256) (file : FileEncoding) (allowSimulated : Bool)
    (id : OperationId) :
    (∀ s : Lifecycle, Exclusive ((lifecycleRow allowSimulated id).leased id) s) ∧
    (∀ row : ExecuteRow, Exclusive ((executeRow commands).leased row.op.id) row) ∧
    (∀ s : Cancellations, Exclusive ((cancelRow commands id).leased id) s) ∧
    (∀ row : Progress, Exclusive ((uploadClaimed enc request file).leased row.op.id) row) :=
  ⟨fun s => (lifecycleRow_lawful allowSimulated id).fences.exclusive s,
    fun row => (executeRow_lawful commands row.op.id).fences.exclusive row,
    fun s => (cancelRow_lawful commands id).fences.exclusive s,
    fun row => (uploadClaimed_lawful row.op.id).fences.exclusive row⟩

end HudsonSandbox.Uploads
