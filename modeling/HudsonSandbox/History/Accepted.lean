import HudsonSandbox.History.Eligible
import HudsonSandbox.Store.Retained
import HudsonSandbox.Uploads.Claims
import HudsonSandbox.Uploads.Frozen

/-!
# Ended operations are accepted, and stay accepted

History retirement accepts every terminal command whose output is gone, whichever path ended it,
and what it accepted once it accepts with the same result for ever.
-/

namespace HudsonSandbox.History
open Checked GuestModel Command LiveOutput Store Uploads Supervisor SupervisorFiles Files FileSources
  Artifacts Run

/-! ### Commands -/

/-- The guest whose receipt the row records. -/
def guestContext (row : CommandRow) : Option GuestModel.Context :=
  ((row.op.attemptReceipts[1]?).bind ExecuteEvidence.guestReceipt).map Receipt.context

section Commands
variable {enc : CommandEncoding} {hash : Output.OutputPlan → String} {allowSimulated : Bool}
  {input : CommandInput} {row row' : CommandRow}

theorem ended_iff (inv : CommandInv enc hash allowSimulated input row) :
    Ended row.op.toOperation ↔ row.op.status.Terminal :=
  ⟨fun ended => ended.1, fun ended => ⟨ended, inv.outcome.ended ended⟩⟩

/-- The intent of a dispatched row names the host of its own allocation. -/
theorem validateIntent_pinned {digest : Digest} (inv : CommandInv enc hash allowSimulated input row)
    (intended : validateIntent row.op (row.owner 0 0) digest = .ok ()) :
    validateIntent row.op (pinnedOwner row) digest = .ok () := by
  have project : row.allocation.projectId = row.op.projectId := inv.outcome.owned.1
  have sandbox : row.allocation.sandboxId = row.op.sandboxId := inv.outcome.owned.2
  have same : pinnedOwner row = row.owner 0 0 := by
    unfold pinnedOwner ExecuteRow.owner
    rw [project, sandbox]
  rw [same]
  exact intended

/-- What is read of a terminal row before its dispatch matters. -/
theorem eligibleCommand_ended (inv : CommandInv enc hash allowSimulated input row)
    (ended : row.op.status.Terminal) :
    eligibleCommand enc hash row allowSimulated =
      (if row.op.attemptCount = 0 then do
        ensure (Unsent row.op) .evidence
        pure (some none)
      else do
        (validateIntent row.op (pinnedOwner row) (enc.digest (input.forOperation row.op.id))).mapError
          fun _ => HistoryError.evidence
        if row.op.phase = .notStarted ∨ row.op.phase = .cancelledBeforeStart then
          eligibleFenced row (enc.digest (input.forOperation row.op.id)) allowSimulated
        else eligibleObserved enc hash row allowSimulated) := by
  have kind : row.op.kind = .execute := inv.outcome.kind
  have done := (ended_iff inv).mpr ended
  unfold eligibleCommand
  rw [seq_of_ok (ensure_ok.mpr kind), if_neg (not_not.mpr done), inv.summary]
  rfl

/-- A terminal row without output: it was never sent, or its host fenced it off. -/
theorem eligibleCommand_none (inv : CommandInv enc hash allowSimulated input row)
    (ended : row.op.status.Terminal) (empty : row.op.outputStatus = .none) :
    eligibleCommand enc hash row allowSimulated = .ok (some none) ∧ guestContext row = none := by
  rw [eligibleCommand_ended inv ended]
  rcases inv.outcome.history with ⟨zero, list, _⟩ | ⟨_, _, _, _, live⟩ |
    ⟨intent, fence, one, list, own, fenced, receiptless, _⟩ | ⟨intent, observed, receipt, _, list, _, seen⟩
  · have zero : row.op.attemptCount = 0 := zero
    have list : row.op.attemptReceipts = [] := list
    have unsent : Unsent row.op := ⟨inv.outcome.unsent ended zero, list, empty⟩
    rw [if_pos zero, seq_of_ok (ensure_ok.mpr unsent)]
    refine ⟨rfl, ?_⟩
    unfold guestContext
    rw [list]
    rfl
  · exact absurd ended (Status.not_terminal_of_live live)
  · have one : row.op.attemptCount = 1 := one
    have list : row.op.attemptReceipts = [intent, fence] := list
    have second : fence ∈ row.op.attemptReceipts[1]? := by
      rw [list]
      exact rfl
    have known := inv.outcome.fenced fence second (by rw [fenced]; decide)
    obtain ⟨simulated, reported, policy⟩ := inv.outcome.reported fence second
    have intended : validateIntent row.op (row.owner 0 0)
        (enc.digest (input.forOperation row.op.id)) = .ok () := by
      simp only [validateIntent, list, bind_ok, okOr_ok, ensure_ok]
      exact ⟨intent, rfl, one, own.digest, own.phase, own.scope⟩
    have both : SameScope fence.owner intent.owner := by
      obtain ⟨a, b, c, d, e, f, g⟩ := known.scope
      obtain ⟨a', b', c', d', e', f', g'⟩ := own.scope
      exact ⟨a.trans a'.symm, b.trans b'.symm, c.trans c'.symm, d.trans d'.symm, e.trans e'.symm,
        f.trans f'.symm, g.trans g'.symm⟩
    have phase : row.op.phase = .notStarted ∨ row.op.phase = .cancelledBeforeStart :=
      known.outcome.imp And.right And.right
    rw [if_neg (by omega), seq_of_ok (mapError_ok.mpr (validateIntent_pinned inv intended)), if_pos phase]
    refine ⟨?_, ?_⟩
    · have outcome : fencedOutcome row.op := known.outcome
      unfold eligibleFenced
      rw [seq_of_ok (ensure_ok.mpr outcome), list]
      have evidence : fence.phase = .commandFencedBeforeStart ∧ fence.notStarted = true ∧
          fence.guestReceipt = none ∧
          fence.commandDigest = some (enc.digest (input.forOperation row.op.id)) ∧
          row.op.outputStatus = .none ∧ SameScope fence.owner intent.owner :=
        ⟨fenced, known.notStarted, receiptless, known.digest, empty, both⟩
      dsimp only
      rw [seq_of_ok (ensure_ok.mpr evidence), reported]
      exact seq_of_ok (ensure_ok.mpr policy)
    · unfold guestContext
      rw [list]
      show (fence.guestReceipt).map Receipt.context = none
      rw [receiptless]
      rfl
  · have list : row.op.attemptReceipts = [intent, observed] := list
    have second : observed ∈ row.op.attemptReceipts[1]? := by
      rw [list]
      exact rfl
    have pending := inv.outcome.collected.mpr ⟨ended, observed, second, seen.phase⟩
    have none : (row.original input).op.outputStatus = .none := if_pos empty
    rw [none] at pending
    cases pending

/-- The retirement of a row's output is confirmed exactly where its cleanup was completed. -/
theorem validateCompleted_iff {manifest : CleanupManifest} (found : row.manifest enc = .ok manifest)
    (inventory : ∀ c ∈ row.cleanup, Inventoried hash row manifest c) :
    row.validateCompleted enc hash = .ok () ↔ ∃ c ∈ row.cleanup, c.completedAt ≠ none := by
  constructor
  · intro h
    unfold CommandRow.validateCompleted at h
    obtain ⟨c, held, _⟩ := bind_ok.mp h
    obtain ⟨held, done⟩ := Option.filter_eq_some_iff.mp (okOr_ok.mp held)
    exact ⟨c, held, Option.isSome_iff_ne_none.mp done⟩
  · rintro ⟨c, held, done⟩
    have agrees := inventory c held
    obtain ⟨known, receipt, stored, valid⟩ := agrees.completed done
    have eligible := (agrees.known manifest known).2.2
    have kept : (row.cleanup.filter fun c => c.completedAt.isSome) = some c :=
      Option.filter_eq_some_iff.mpr ⟨held, Option.isSome_iff_ne_none.mpr done⟩
    unfold CommandRow.validateCompleted
    refine bind_ok.mpr ⟨c, okOr_ok.mpr kept, bind_ok.mpr ⟨manifest, found, ?_⟩⟩
    refine bind_ok.mpr ⟨manifest, okOr_ok.mpr known, bind_ok.mpr ⟨receipt, okOr_ok.mpr stored, ?_⟩⟩
    exact seq_ok.mpr ⟨ensure_ok.mpr ⟨rfl, eligible⟩, valid⟩

/-- A terminal row whose guest reported a receipt. -/
theorem eligibleCommand_observed (inv : CommandInv enc hash allowSimulated input row)
    (collected : row.op.outputStatus ≠ .none) {context : Option GuestModel.Context} :
    eligibleCommand enc hash row allowSimulated = .ok (some context) ↔
      row.Expended ∧ context = guestContext row := by
  obtain ⟨e, reported⟩ := inv.reported collected
  have unfenced : ¬(row.op.phase = .notStarted ∨ row.op.phase = .cancelledBeforeStart) :=
    not_or.mpr reported.phase
  have known : guestContext row = some e.receipt.context := by
    unfold guestContext
    rw [reported.receipt]
    rfl
  rw [eligibleCommand_ended inv reported.ended, if_neg (by have one := reported.count; omega),
    seq_of_ok (mapError_ok.mpr (validateIntent_pinned inv reported.intended)), if_neg unfenced, known]
  have read : eligibleObserved enc hash row allowSimulated =
      (if row.op.outputStatus ≠ .expired then pure none
      else if row.outputTicket ≠ none then do
        (row.validateCompleted enc hash).mapError outputError
        pure (some (some e.receipt.context))
      else do
        ensure (row.payloadCompactedAt ≠ none) .evidence
        pure (some (some e.receipt.context))) := by
    unfold eligibleObserved
    rw [reported.evidence]
    exact seq_of_ok (ensure_ok.mpr reported.policy)
  rw [read]
  by_cases expired : row.op.outputStatus = .expired
  · rw [if_neg (not_not.mpr expired)]
    rcases inv.output with ⟨empty | ⟨pending, _⟩, _⟩ | ⟨_, absent, _, erased⟩ |
      ⟨manifest, found, inventory, compacted⟩
    · exact absurd empty collected
    · rw [expired] at pending
      cases pending
    · rw [if_neg (not_not.mpr absent), seq_of_ok (ensure_ok.mpr erased), pure_ok]
      constructor
      · intro same
        exact ⟨.inr ⟨expired, .inl erased⟩, (Option.some.inj same).symm⟩
      · rintro ⟨_, rfl⟩
        rfl
    · obtain ⟨_, _, ticket, _, _, saved, _⟩ := cleanupManifest_ok.mp found
      have held : row.outputTicket ≠ none := by
        rw [saved.held]
        exact Option.some_ne_none ticket
      rw [if_pos held, seq_ok, mapError_ok, validateCompleted_iff found inventory, pure_ok]
      constructor
      · rintro ⟨completed, same⟩
        exact ⟨.inr ⟨expired, .inr completed⟩, (Option.some.inj same).symm⟩
      · rintro ⟨empty | ⟨_, erased | completed⟩, rfl⟩
        · exact absurd empty collected
        · exact ⟨compacted erased, rfl⟩
        · exact ⟨completed, rfl⟩
  · rw [if_pos expired]
    constructor
    · intro h
      cases pure_ok.mp h
    · rintro ⟨empty | ⟨gone, _⟩, _⟩
      · exact absurd empty collected
      · exact absurd gone expired

/-- A command is accepted exactly when it ended and nothing of its output is left, with the guest
that reported it. -/
theorem eligibleCommand_iff (inv : CommandInv enc hash allowSimulated input row)
    {context : Option GuestModel.Context} :
    eligibleCommand enc hash row allowSimulated = .ok (some context) ↔
      row.op.status.Terminal ∧ row.Expended ∧ context = guestContext row := by
  by_cases ended : row.op.status.Terminal
  · by_cases empty : row.op.outputStatus = .none
    · obtain ⟨accepted, unreported⟩ := eligibleCommand_none inv ended empty
      rw [accepted, unreported]
      constructor
      · intro same
        cases same
        exact ⟨ended, .inl empty, rfl⟩
      · rintro ⟨_, _, rfl⟩
        rfl
    · rw [eligibleCommand_observed inv empty]
      exact ⟨fun accepted => ⟨ended, accepted⟩, And.right⟩
  · constructor
    · intro h
      have kind : row.op.kind = .execute := inv.outcome.kind
      unfold eligibleCommand at h
      rw [seq_of_ok (ensure_ok.mpr kind), if_pos fun all => ended all.1] at h
      cases pure_ok.mp h
    · intro accepted
      exact absurd accepted.1 ended

/-- Whatever a row holds, it is accepted only when it ended. -/
theorem eligibleCommand_done {context : Option GuestModel.Context}
    (accepted : eligibleCommand enc hash row allowSimulated = .ok (some context)) :
    Ended row.op.toOperation := by
  unfold eligibleCommand at accepted
  obtain ⟨_, accepted⟩ := seq_ok.mp accepted
  split at accepted
  · cases pure_ok.mp accepted
  next ended => exact not_not.mp ended

theorem eligibleCommand_stays {context : Option GuestModel.Context}
    (inv : CommandInv enc hash allowSimulated input row) (events : List CommandEvent)
    (accepted : eligibleCommand enc hash row allowSimulated = .ok (some context)) :
    eligibleCommand enc hash (run (commandStep enc hash allowSimulated) row events) allowSimulated =
      .ok (some context) := by
  obtain ⟨ended, expended, same⟩ := (eligibleCommand_iff inv).mp accepted
  have kept := inv.retains ended events
  refine (eligibleCommand_iff kept.inv).mpr ⟨?_, kept.expended expended, ?_⟩
  · rw [kept.same.status]
    exact ended
  · rw [same]
    unfold guestContext
    rw [kept.same.receipts]

end Commands

/-! ### Uploads -/

section Files
variable {enc : Encoding} {request : SandboxId → UploadInput → BitVec 256} {file : FileEncoding}
  {allowSimulated : Bool}

/-- An upload that ended and whose source is retired is never written again. -/
theorem transact_retired {row row' : Progress} {event : UploadEvent} (ended : row.op.status.Terminal)
    (retired : row.file.sourceRetiredAt ≠ none)
    (h : transact enc request file row event = .ok row') : event.claim = none ∧ row' = row := by
  cases carried : event.claim with
  | some claim =>
    have fenced := (transact_guarded carried h).fenced
    exact absurd ended (Status.not_terminal_of_live fenced.2.2.2)
  | none =>
    refine ⟨rfl, ?_⟩
    cases event with
    | claimUpload lease now =>
      obtain ⟨base, made, rfl⟩ := onRow_ok h
      unfold claimUpload at made
      obtain ⟨claimable, _⟩ := seq_ok.mp made
      exact absurd ended (ensure_ok.mp claimable).1.1
    | claimFileSourceCleanup lease now =>
      obtain ⟨base, made, rfl⟩ := onRow_ok h
      unfold claimFileSourceCleanup at made
      obtain ⟨_, made⟩ := seq_ok.mp made
      obtain ⟨due, _⟩ := seq_ok.mp made
      exact absurd (ensure_ok.mp due).1 retired
    | completeFileSourceCleanup claim receipt now =>
      obtain ⟨base, made, rfl⟩ := onRow_ok h
      unfold completeFileSourceCleanup at made
      obtain ⟨_, _, made⟩ := bind_ok.mp made
      obtain ⟨_, _, made⟩ := bind_ok.mp made
      obtain ⟨_, _, made⟩ := bind_ok.mp made
      rw [if_pos retired] at made
      iterate 3 obtain ⟨_, _, made⟩ := bind_ok.mp made
      rw [← pure_ok.mp made]
    | deferFileSourceCleanup claim delay now =>
      obtain ⟨base, made, rfl⟩ := onRow_ok h
      unfold deferFileSourceCleanup at made
      obtain ⟨_, made⟩ := seq_ok.mp made
      obtain ⟨held, _⟩ := seq_ok.mp made
      exact absurd (ensure_ok.mp held).2.2.2 retired
    | renewUpload claim lease now => cases carried
    | deferUpload claim delay now => cases carried
    | prepareUpload claim host epoch first authority now => cases carried
    | acceptUploadSource claim source now => cases carried
    | uploadUnknown claim now => cases carried
    | confirmUploadWrite claim asked source offset authority now => cases carried
    | observeUpload claim o written allowSimulated now => cases carried

theorem fileStep_retired {row : FileRow} (event : FileEvent) (ended : row.op.status.Terminal)
    (retired : row.file.sourceRetiredAt ≠ none) :
    ∃ expires, fileStep enc request file allowSimulated row event = { row with responseExpiresAt := expires } := by
  unfold fileStep
  cases made : fileTransaction enc request file allowSimulated row event with
  | error e => exact ⟨row.responseExpiresAt, rfl⟩
  | ok next =>
    cases event with
    | upload event =>
      obtain ⟨progress, moved, same⟩ := bind_ok.mp made
      obtain ⟨unclaimed, rfl⟩ := transact_retired ended retired moved
      refine ⟨row.responseExpiresAt, ?_⟩
      rw [← pure_ok.mp same]
      cases event with
      | claimUpload | claimFileSourceCleanup | completeFileSourceCleanup | deferFileSourceCleanup => rfl
      | renewUpload | deferUpload | prepareUpload | acceptUploadSource | uploadUnknown
      | confirmUploadWrite | observeUpload => cases unclaimed
    | assignRetention period =>
      obtain ⟨_, made⟩ := seq_ok.mp made
      obtain ⟨completed, _, same⟩ := bind_ok.mp made
      rw [← pure_ok.mp same]
      exact ⟨_, rfl⟩

/-- The retention of the response is no evidence. -/
theorem eligibleFile_retention {row : FileRow} (expires : Option Time) :
    eligibleFile enc request file { row with responseExpiresAt := expires } allowSimulated =
      eligibleFile enc request file row allowSimulated := rfl

theorem eligibleFile_ended {row : FileRow} {context : Option GuestModel.Context}
    (accepted : eligibleFile enc request file row allowSimulated = .ok (some context)) :
    Ended row.op.toOperation ∧ row.file.sourceRetiredAt ≠ none := by
  unfold eligibleFile at accepted
  obtain ⟨_, accepted⟩ := seq_ok.mp accepted
  split at accepted
  · cases pure_ok.mp accepted
  next ended =>
    split at accepted
    · cases pure_ok.mp accepted
    next retired => exact ⟨not_not.mp ended, retired⟩

theorem eligibleFile_stays {row : FileRow} {context : Option GuestModel.Context}
    (events : List FileEvent)
    (accepted : eligibleFile enc request file row allowSimulated = .ok (some context)) :
    eligibleFile enc request file (run (fileStep enc request file allowSimulated) row events)
      allowSimulated = .ok (some context) := by
  induction events generalizing row with
  | nil => exact accepted
  | cons event rest ih =>
    obtain ⟨ended, retired⟩ := eligibleFile_ended accepted
    obtain ⟨expires, same⟩ := fileStep_retired event ended.1 retired
    refine ih ?_
    rw [same, eligibleFile_retention]
    exact accepted

end Files

/-! ### Both domains -/

/-- Whatever path ended a command, history retirement accepts it once its output is gone; what it
accepted once, of either domain, it accepts with the same result in every later state. No command
ever changes what it says of the admitted input or what it takes of the admission capacity. -/
theorem ended_accepted {commands : CommandEncoding} {hash : Output.OutputPlan → String}
    {enc : Encoding} {request : SandboxId → UploadInput → BitVec 256} {file : FileEncoding}
    {allowSimulated : Bool} {r : ExecuteCommand} {id : OperationId} {allocation : PinnedAllocation}
    {clock : ℕ} {row : ExecuteRow} (admitted : admitExecute commands r id allocation clock = some row)
    (before after : List CommandEvent) :
    let reached := run (commandStep commands hash allowSimulated) (.admitted row) before
    let later := run (commandStep commands hash allowSimulated) reached after
    (reached.op.status.Terminal → reached.Expended →
      eligibleCommand commands hash reached allowSimulated = .ok (some (guestContext reached))) ∧
    (∀ context, eligibleCommand commands hash reached allowSimulated = .ok (some context) →
      eligibleCommand commands hash later allowSimulated = .ok (some context)) ∧
    (∀ (upload : FileRow) (events : List FileEvent) (context : Option GuestModel.Context),
      eligibleFile enc request file upload allowSimulated = .ok (some context) →
      eligibleFile enc request file (run (fileStep enc request file allowSimulated) upload events)
        allowSimulated = .ok (some context)) ∧
    reached.summary commands = .ok (admittedSummary commands r.command id) ∧
    later.summary commands = .ok (admittedSummary commands r.command id) ∧
    ∀ (front back : List CommandRow) (pinned : AllocationId) (completed : Option OperationId)
      (additional : Option ℕ),
      hasCapacity commands (front ++ later :: back) pinned completed additional =
        hasCapacity commands (front ++ reached :: back) pinned completed additional := by
  intro reached later
  have start : CommandInv commands hash allowSimulated r.command (.admitted row) := .admitted admitted
  have inv : CommandInv commands hash allowSimulated r.command reached := .reached admitted before
  have weight : SameWeight commands reached later := run_weight inv after
  have known : (CommandRow.admitted row).summary commands = .ok (admittedSummary commands r.command id) := by
    have same : row.op.id = id := (admitExecute_row admitted).1
    rw [start.summary]
    show _ = Except.ok (admittedSummary commands r.command id)
    rw [← same]
    rfl
  have kept : reached.summary commands = .ok (admittedSummary commands r.command id) :=
    (run_weight start before).summary.trans known
  refine ⟨?_, ?_, ?_, kept, weight.summary.trans kept, ?_⟩
  · intro ended expended
    exact (eligibleCommand_iff inv).mpr ⟨ended, expended, rfl⟩
  · intro context accepted
    exact eligibleCommand_stays inv after accepted
  · intro upload events context accepted
    exact eligibleFile_stays events accepted
  · intro front back pinned completed additional
    refine hasCapacity_congr (List.rel_append ?_ (.cons weight ?_)) pinned completed additional
    · exact List.forall₂_same.mpr fun row _ => .refl row
    · exact List.forall₂_same.mpr fun row _ => .refl row

/-! ### A command whose output nobody collected -/

namespace CommandSample
open Store.CommandSample

def exited : Receipt :=
  { receipt "boot" with state := .exited, exitCode := some 0, cleanupConfirmed := true }

/-- The command runs and exits; its response expires and its payload is compacted. -/
def expired : List CommandEvent :=
  [.execute (.claimExecute 60 (seconds 2)),
    .execute (.prepareExecute claim ⟨4⟩ 1
      { authorized := true, current := true, capacity := true, hostValid := true } (seconds 3)),
    .execute (.finishExecuteObservation claim
      (some { observation "boot" with receipt := some exited }) false (seconds 4)),
    .execute (.assignRetention 60), .compactExpiredResponse (.ok ()) (seconds 100)]

theorem expired_accepted :
    eligibleCommand encoding (fun _ => "")
      (run (commandStep encoding (fun _ => "") false) (.admitted row) expired) false =
        .ok (some (some { allocationId := ⟨3⟩, generation := 1, bootId := "boot" })) := by
  have all := @ended_accepted encoding (fun _ => "") Store.Sample.encoding Store.Sample.request
    Uploads.FrozenSample.fileEncoding false _ _ _ _ _ admitted expired []
  exact all.1 (by decide +kernel) (by decide +kernel)

end CommandSample
end HudsonSandbox.History
