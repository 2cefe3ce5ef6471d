import HudsonSandbox.Store.Retained

/-!
# The collection of an output

How far the output status of a command moves, and what no transaction takes back: the ticket, the
plan, and references that agree with both the plan and the guest's receipt. Every transaction may
run under another simulation policy.
-/

namespace HudsonSandbox.Store
open Checked GuestModel Command LiveOutput Output Run

inductive OutputStatus.Moves : OutputStatus → OutputStatus → Prop where
  | recorded : Moves .none .pending
  | prepared : Moves .pending .uploading
  -- the retention was over before anything was uploaded
  | lapsed : Moves .pending .expired
  | published : Moves .uploading .published
  | expired : Moves .uploading .expired
  | revoked : Moves .published .expired

/-- One move at a time, and none out of a publication. -/
inductive OutputStatus.Advances : OutputStatus → OutputStatus → Prop where
  | recorded : Advances .none .pending
  | prepared : Advances .pending .uploading
  | published : Advances .uploading .published
  | expired : Advances .uploading .expired

/-- References that are the saved plan and the statistics of the receipt at once. -/
structure Publishes (enc : CommandEncoding) (row : CommandRow) (e : StreamEvidence) (refs : OutputRefs) :
    Prop where
  evidence : row.evidence enc = .ok e
  listed : row.outputRefs = [refs.stdout, refs.stderr]
  planned : row.outputPlan = some refs.plans
  stdout : CapturedAs refs.plans.stdout e.receipt.stdout
  stderr : CapturedAs refs.plans.stderr e.receipt.stderr

/-- What a transaction leaves of the collection. -/
structure Collects (row row' : CommandRow) : Prop where
  ticket : ∀ ticket ∈ row.outputTicket, row'.outputTicket = some ticket
  plan : ∀ plans ∈ row.outputPlan, row'.outputPlan = some plans
  status : row'.op.outputStatus = row.op.outputStatus ∨
    row.op.outputStatus.Moves row'.op.outputStatus

section Transactions
variable {enc : CommandEncoding} {hash : OutputPlan → String} {allowed : Bool} {input : CommandInput}
  {row row' : CommandRow} {e : StreamEvidence} {now : Time}

theorem Collects.of_same (ticket : row'.outputTicket = row.outputTicket)
    (plan : row'.outputPlan = row.outputPlan)
    (status : row'.op.outputStatus = row.op.outputStatus ∨
      row.op.outputStatus.Moves row'.op.outputStatus) : Collects row row' := by
  refine ⟨?_, ?_, status⟩
  · intro held found
    rw [ticket]
    exact found
  · intro plans found
    rw [plan]
    exact found

theorem Collects.refl (row : CommandRow) : Collects row row := .of_same rfl rfl (.inl rfl)

/-- A ticket is on rows alone whose upload was authorized. -/
theorem CommandInv.ticketed (inv : CommandInv enc hash true input row) {ticket : OutputTicket}
    (held : row.outputTicket = some ticket) : row.op.outputStatus.Ticketed := by
  rcases inv.output with ⟨_, absent, _⟩ | ⟨_, absent, _⟩ | ⟨_, found, _⟩
  · rw [held] at absent
    cases absent
  · rw [held] at absent
    cases absent
  · exact (cleanupManifest_ok.mp found).1

theorem OutputStatus.Ticketed.uploading {status : OutputStatus} (ticketed : status.Ticketed)
    (live : status.Open) : status = .uploading := by
  rcases live with pending | uploading
  · rw [pending] at ticketed
    exact absurd ticketed (by decide)
  · exact uploading

theorem OutputStatus.Ticketed.expires {status : OutputStatus} (ticketed : status.Ticketed) :
    OutputStatus.expired = status ∨ status.Moves .expired := by
  rcases ticketed with uploading | published | expired
  · rw [uploading]
    exact .inr .expired
  · rw [published]
    exact .inr .revoked
  · exact .inl expired.symm

theorem validatePlans_ok {ticket : OutputTicket} {plans : OutputPlans}
    (h : validatePlans ticket plans e = .ok ()) :
    CapturedAs plans.stdout e.receipt.stdout ∧ CapturedAs plans.stderr e.receipt.stderr := by
  unfold validatePlans at h
  obtain ⟨_, h⟩ := seq_ok.mp h
  exact ensure_ok.mp h

/-- A published row lists what its ticket planned and its guest stored. -/
theorem CommandInv.publishes (inv : CommandInv enc hash true input row)
    (published : row.op.outputStatus = .published) : ∃ e refs, Publishes enc row e refs := by
  rcases inv.output with ⟨none | ⟨pending, _⟩, _⟩ | ⟨expired, _⟩ | ⟨_, found, _⟩
  · rw [published] at none
    cases none
  · rw [published] at pending
    cases pending
  · rw [published] at expired
    cases expired
  · obtain ⟨_, e, ticket, references, evidence, saved, listed, _⟩ := cleanupManifest_ok.mp found
    unfold CommandRow.references at listed
    split at listed
    next =>
      obtain ⟨unpublished, _⟩ := seq_ok.mp listed
      exact absurd published (ensure_ok.mp unpublished)
    next stdout stderr both =>
      obtain ⟨_, listed⟩ := seq_ok.mp listed
      obtain ⟨_, listed⟩ := seq_ok.mp listed
      obtain ⟨planned, _⟩ := seq_ok.mp listed
      have planned : row.outputPlan = some (OutputRefs.plans { stdout, stderr }) :=
        ensure_ok.mp planned
      have captured := validatePlans_ok (saved.plans _ planned)
      exact ⟨e, { stdout, stderr }, evidence, both, planned, captured.1, captured.2⟩
    · cases listed

/-! ### One transaction -/

theorem prepareOutput_collects {claim : OutputClaim} {retention grace : ℤ} {attempt : OperationId}
    {projectDeleting : Bool} {work : Option OutputWork}
    (h : prepareOutput enc row claim retention grace attempt projectDeleting allowed now =
      .ok (row', work)) : Collects row row' := by
  unfold prepareOutput at h
  obtain ⟨_, h⟩ := seq_ok.mp h
  obtain ⟨checked, h⟩ := seq_ok.mp h
  have live := claimed_ok checked
  obtain ⟨e, _, h⟩ := bind_ok.mp h
  obtain ⟨_, h⟩ := seq_ok.mp h
  obtain ⟨work, prepared, h⟩ := bind_ok.mp h
  obtain ⟨_, h⟩ := seq_ok.mp h
  -- the ticket that is written again is the saved one
  have kept : ∀ ticket ∈ row.outputTicket, some work.ticket = some ticket := by
    intro ticket held
    rcases preparedWork_ok prepared with ⟨saved, holds, rfl⟩ | ⟨absent, _⟩
    · exact holds.held.symm.trans held
    · rw [absent] at held
      cases held
  dsimp only at h
  split at h
  · cases pure_ok.mp h
    refine ⟨kept, fun plans found => found, .inr ?_⟩
    rcases live with pending | uploading
    · rw [pending]
      exact .lapsed
    · rw [uploading]
      exact .expired
  · cases pure_ok.mp h
    refine ⟨kept, fun plans found => found, ?_⟩
    rcases live with pending | uploading
    · rw [pending]
      exact .inr .prepared
    · exact .inl uploading.symm

theorem saveOutputPlans_collects {claim : OutputClaim} {plans : OutputPlans} {projectDeleting : Bool}
    (h : saveOutputPlans enc row claim plans projectDeleting allowed now = .ok row') :
    Collects row row' := by
  unfold saveOutputPlans at h
  obtain ⟨⟨e, work⟩, found, h⟩ := bind_ok.mp h
  obtain ⟨_, _, ticket, _, rfl⟩ := claimedWork_ok found
  obtain ⟨_, h⟩ := seq_ok.mp h
  obtain ⟨unchanged, h⟩ := seq_ok.mp h
  obtain ⟨_, h⟩ := seq_ok.mp h
  rw [← pure_ok.mp h]
  refine ⟨fun ticket held => held, ?_, .inl rfl⟩
  intro old saved
  exact congrArg some (ensure_ok.mp unchanged old saved).symm

theorem publishOutput_collects {claim : OutputClaim} {refs : OutputRefs} {projectDeleting : Bool}
    (inv : CommandInv enc hash true input row)
    (h : publishOutput enc row claim refs projectDeleting allowed now = .ok row') :
    Collects row row' := by
  unfold publishOutput at h
  obtain ⟨⟨e, work⟩, found, h⟩ := bind_ok.mp h
  obtain ⟨live, _, ticket, saved, _⟩ := claimedWork_ok found
  obtain ⟨_, h⟩ := seq_ok.mp h
  obtain ⟨_, h⟩ := seq_ok.mp h
  obtain ⟨_, h⟩ := seq_ok.mp h
  obtain ⟨_, h⟩ := seq_ok.mp h
  rw [← pure_ok.mp h]
  refine .of_same rfl rfl (.inr ?_)
  rw [(inv.ticketed saved.held).uploading live]
  exact .published

theorem prepareOutputCleanup_collects {claim : CleanupClaim} {preparation : CleanupPreparation}
    (h : prepareOutputCleanup enc row claim now = .ok (row', preparation)) : Collects row row' := by
  unfold prepareOutputCleanup at h
  obtain ⟨c, _, h⟩ := bind_ok.mp h
  obtain ⟨_, h⟩ := seq_ok.mp h
  obtain ⟨manifest, found, h⟩ := bind_ok.mp h
  obtain ⟨_, h⟩ := seq_ok.mp h
  obtain ⟨_, h⟩ := seq_ok.mp h
  cases pure_ok.mp h
  exact .of_same rfl rfl (cleanupManifest_ok.mp found).1.expires

theorem completeOutputCleanup_collects {claim : CleanupClaim} {receipt : CleanupCompletion}
    (h : completeOutputCleanup enc hash row claim receipt allowed now = .ok row') :
    Collects row row' := by
  unfold completeOutputCleanup at h
  obtain ⟨c, _, h⟩ := bind_ok.mp h
  obtain ⟨_, h⟩ := seq_ok.mp h
  obtain ⟨current, _, h⟩ := bind_ok.mp h
  obtain ⟨saved, _, h⟩ := bind_ok.mp h
  obtain ⟨_, h⟩ := seq_ok.mp h
  obtain ⟨_, h⟩ := seq_ok.mp h
  obtain ⟨_, h⟩ := seq_ok.mp h
  split at h
  · obtain ⟨_, h⟩ := seq_ok.mp h
    rw [← pure_ok.mp h]
    exact .refl row
  · obtain ⟨_, h⟩ := seq_ok.mp h
    rw [← pure_ok.mp h]
    exact .of_same rfl rfl (.inl rfl)

theorem compacted_collects {summary : CommandSummary} : Collects row (row.compacted summary now) := by
  apply Collects.of_same
  · rfl
  · rfl
  show (if _ then _ else _) = _ ∨ row.op.outputStatus.Moves (if _ then _ else _)
  by_cases pending : row.op.outputStatus = .pending
  · rw [if_pos pending, pending]
    exact .inr .lapsed
  · rw [if_neg pending]
    exact .inl rfl

theorem compactExpiredResponse_collects {request : Except OutputError Unit} {result : Compaction}
    (h : compactExpiredResponse enc hash row request now = .ok (row', result)) :
    Collects row row' := by
  unfold compactExpiredResponse at h
  split at h
  · cases h
    exact .refl row
  · split at h
    · cases h
      exact compacted_collects
    · cases h
      exact .of_same rfl rfl (.inl rfl)
    · cases h
      exact .of_same rfl rfl (.inl rfl)
    · cases h

theorem outputTransaction_collects (event : CommandEvent) (inv : CommandInv enc hash true input row)
    (h : outputTransaction enc hash allowed row event = .ok row') : Collects row row' := by
  cases event with
  | execute event =>
    cases h
    exact .refl row
  | enqueueExpiredOutput now =>
    obtain ⟨_, h⟩ := seq_ok.mp h
    rw [← pure_ok.mp h]
    exact .of_same rfl rfl (.inl rfl)
  | claimOutput lease now | renewOutputClaim claim lease now | deferOutput claim delay now =>
    obtain ⟨_, h⟩ := seq_ok.mp h
    obtain ⟨_, h⟩ := seq_ok.mp h
    rw [← pure_ok.mp h]
    exact .of_same rfl rfl (.inl rfl)
  | prepareOutput claim retention grace attempt projectDeleting now =>
    obtain ⟨_, prepared⟩ := map_fst_ok h
    exact prepareOutput_collects prepared
  | saveOutputPlans claim plans projectDeleting now => exact saveOutputPlans_collects h
  | publishOutput claim refs projectDeleting now => exact publishOutput_collects inv h
  | claimOutputCleanup lease now =>
    obtain ⟨_, h⟩ := seq_ok.mp h
    obtain ⟨c, _, h⟩ := bind_ok.mp h
    obtain ⟨_, h⟩ := seq_ok.mp h
    rw [← pure_ok.mp h]
    exact .of_same rfl rfl (.inl rfl)
  | prepareOutputCleanup claim now =>
    obtain ⟨_, prepared⟩ := map_fst_ok h
    exact prepareOutputCleanup_collects prepared
  | completeOutputCleanup claim receipt now => exact completeOutputCleanup_collects h
  | deferOutputCleanup claim delay now =>
    obtain ⟨_, h⟩ := seq_ok.mp h
    obtain ⟨c, _, h⟩ := bind_ok.mp h
    rw [← pure_ok.mp h]
    exact .of_same rfl rfl (.inl rfl)
  | compactExpiredResponse request now =>
    obtain ⟨_, compacted⟩ := map_fst_ok h
    exact compactExpiredResponse_collects compacted

/-- The transactions on the execution record an outcome once and leave the collection alone. -/
theorem execute_collects (event : ExecuteEvent) (inv : CommandInv enc hash true input row) :
    Collects row (commandStep enc hash true row (.execute event)) := by
  have next := (execute_keeps event inv).1
  obtain ⟨allocation, moves⟩ := @executeStep_moves enc true row.toExecuteRow event
  refine .of_same rfl rfl ?_
  by_cases ended : row.op.status.Terminal
  · obtain ⟨expires, op⟩ := moves.terminal ended
    have same : (executeStep enc row.toExecuteRow (event.under true)).op.outputStatus =
        row.op.outputStatus := by rw [op]
    exact .inl same
  · obtain ⟨whole, none, _⟩ := inv.waiting ended
    have outcome : Outcome enc true row.toExecuteRow := by
      rw [← whole]
      exact inv.outcome
    have reached := executeStep_outcome row.toExecuteRow event outcome
    rcases reached.output with still | pending
    · exact .inl (still.trans none.symm)
    · refine .inr ?_
      show OutputStatus.Moves row.op.outputStatus
        (executeStep enc row.toExecuteRow (event.under true)).op.outputStatus
      rw [none, pending]
      exact .recorded

/-! ### Every policy -/

/-- A policy that denies simulation only refuses what another one records. -/
theorem finishExecuteObservation_lenient {row row' : ExecuteRow} {claim : Claim}
    {observation : Option CommandObservation}
    (h : finishExecuteObservation enc row claim observation allowed now = .ok row') :
    finishExecuteObservation enc row claim observation true now = .ok row' := by
  unfold finishExecuteObservation at h ⊢
  obtain ⟨ctx, found, h⟩ := bind_ok.mp h
  obtain ⟨intended, h⟩ := seq_ok.mp h
  obtain ⟨checked, h⟩ := seq_ok.mp h
  refine bind_ok.mpr ⟨ctx, found, seq_ok.mpr ⟨intended, seq_ok.mpr ⟨?_, h⟩⟩⟩
  unfold checkObservation at checked ⊢
  cases observation with
  | none => exact checked
  | some o =>
    obtain ⟨_, checked⟩ := seq_ok.mp checked
    exact seq_ok.mpr ⟨ensure_ok.mpr fun _ => rfl, checked⟩

theorem executeStep_lenient (row : ExecuteRow) (event : ExecuteEvent) :
    executeStep enc row (event.under allowed) = row ∨
      executeStep enc row (event.under allowed) = executeStep enc row (event.under true) := by
  cases event with
  | finishExecuteObservation claim observation other now =>
    show commit row _ = row ∨ commit row _ = commit row _
    cases finished : finishExecuteObservation enc row claim observation allowed now with
    | error error => exact .inl rfl
    | ok row' =>
      rw [finishExecuteObservation_lenient finished]
      exact .inr rfl
  | _ => exact .inr rfl

/-- One transaction under the policy that its caller runs with. -/
def collectStep (enc : CommandEncoding) (hash : OutputPlan → String) (row : CommandRow)
    (event : Bool × CommandEvent) : CommandRow :=
  commandStep enc hash event.1 row event.2

theorem collectStep_keeps (row : CommandRow) (event : Bool × CommandEvent)
    (inv : CommandInv enc hash true input row) :
    CommandInv enc hash true input (collectStep enc hash row event) ∧
      Collects row (collectStep enc hash row event) := by
  obtain ⟨allowed, event⟩ := event
  cases event with
  | execute event =>
    show CommandInv enc hash true input { row with toExecuteRow := executeStep enc _ _ } ∧
      Collects row { row with toExecuteRow := executeStep enc _ _ }
    rcases @executeStep_lenient enc allowed row.toExecuteRow event with denied | allows
    · rw [denied]
      exact ⟨inv, .refl row⟩
    · rw [allows]
      exact ⟨(execute_keeps event inv).1, execute_collects event inv⟩
  | _ =>
    refine ⟨(outputStep_keeps _ inv).inv, ?_⟩
    exact commit_keeps (P := Collects row) (.refl row) fun _ h => outputTransaction_collects _ inv h

theorem run_collects (inv : CommandInv enc hash true input row) (events : List (Bool × CommandEvent)) :
    (∀ ticket ∈ row.outputTicket,
        (run (collectStep enc hash) row events).outputTicket = some ticket) ∧
      ∀ plans ∈ row.outputPlan, (run (collectStep enc hash) row events).outputPlan = some plans := by
  induction events generalizing row with
  | nil => exact ⟨fun ticket held => held, fun plans held => held⟩
  | cons event rest ih =>
    obtain ⟨next, kept⟩ := collectStep_keeps row event inv
    obtain ⟨tickets, plans⟩ := ih next
    exact ⟨fun ticket held => tickets ticket (kept.ticket ticket held),
      fun plan held => plans plan (kept.plan plan held)⟩

end Transactions

/-- However transactions interleave, a ticket and a plan stay as they were saved, a publication is
the plan and the receipt, the status moves forward only, and every output to collect has evidence. -/
theorem collection_safe {enc : CommandEncoding} {hash : OutputPlan → String} {r : ExecuteCommand}
    {id : OperationId} {allocation : PinnedAllocation} {clock : ℕ} {row : ExecuteRow}
    (admitted : admitExecute enc r id allocation clock = some row)
    (events later : List (Bool × CommandEvent)) (event : Bool × CommandEvent) :
    let reached := run (collectStep enc hash) (.admitted row) events
    ((∀ ticket ∈ reached.outputTicket,
        (run (collectStep enc hash) reached later).outputTicket = some ticket) ∧
      ∀ plans ∈ reached.outputPlan,
        (run (collectStep enc hash) reached later).outputPlan = some plans) ∧
    (reached.op.outputStatus = .published → ∃ e refs, Publishes enc reached e refs) ∧
    ((collectStep enc hash reached event).op.outputStatus = reached.op.outputStatus ∨
      reached.op.outputStatus.Moves (collectStep enc hash reached event).op.outputStatus) ∧
    (reached.op.status.Terminal → reached.op.outputStatus = .pending →
      ∃ e, reached.evidence enc = .ok e) := by
  intro reached
  have inv : CommandInv enc hash true r.command reached :=
    run_invariant (fun row event inv => (collectStep_keeps row event inv).1) (.admitted admitted)
  refine ⟨run_collects inv later, inv.publishes, (collectStep_keeps reached event inv).2.status, ?_⟩
  intro _ pending
  have collected : reached.op.outputStatus ≠ .none := by
    rw [pending]
    decide
  obtain ⟨e, reported⟩ := inv.reported collected
  exact ⟨e, reported.evidence⟩

/-! ### One command, collected after its retention -/

namespace CommandSample

def exited : Receipt :=
  { receipt "boot" with state := .exited, exitCode := some 0, cleanupConfirmed := true }

def finished : List (Bool × CommandEvent) :=
  [(false, .execute (.claimExecute 60 (seconds 2))),
    (false, .execute (.prepareExecute claim ⟨4⟩ 1
      { authorized := true, current := true, capacity := true, hostValid := true } (seconds 3))),
    (false, .execute (.finishExecuteObservation claim
      (some { observation "boot" with receipt := some exited }) false (seconds 4))),
    (false, .claimOutput 60 (seconds 5))]

/-- A retention of one second, prepared six seconds after the command ended. -/
def lapsed : Bool × CommandEvent :=
  (false, .prepareOutput { operationId := ⟨5⟩, revision := 1 } 1 0 ⟨7⟩ false (seconds 10))

def collected (events : List (Bool × CommandEvent)) : CommandRow :=
  run (collectStep encoding fun _ => "") (.admitted row) events

/-- An output that nobody uploaded expires all the same. -/
theorem pending_expires : ¬∀ (events : List (Bool × CommandEvent)) (event : Bool × CommandEvent),
    (collectStep encoding (fun _ => "") (collected events) event).op.outputStatus =
        (collected events).op.outputStatus ∨
      (collected events).op.outputStatus.Advances
        (collectStep encoding (fun _ => "") (collected events) event).op.outputStatus := by
  intro all
  have before : (collected finished).op.outputStatus = .pending := by decide +kernel
  have after : (collectStep encoding (fun _ => "") (collected finished) lapsed).op.outputStatus =
      .expired := by decide +kernel
  have advanced := all finished lapsed
  rw [before, after] at advanced
  rcases advanced with same | advances
  · cases same
  · cases advances

theorem finished_evidence : ∃ e, (collected finished).evidence encoding = .ok e :=
  (collection_safe admitted finished [] lapsed).2.2.2 (by decide +kernel) (by decide +kernel)

end CommandSample
end HudsonSandbox.Store
