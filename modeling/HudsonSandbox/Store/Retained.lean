import HudsonSandbox.Store.Outcome

/-!
# What collection, cleanup and compaction retain

Every transaction on the output of a command keeps the evidence of its outcome readable: what a
payload said is kept by its summary, and whatever was authorized for upload stays in the manifest
under which its cleanup was completed.
-/

namespace HudsonSandbox.Store
open Checked GuestModel Command LiveOutput Output Run

/-- The columns that the evidence of an outcome is read from are the same. -/
structure SameEvidence (enc : CommandEncoding) (row row' : CommandRow) : Prop where
  allocation : row'.allocation = row.allocation
  id : row'.op.id = row.op.id
  project : row'.op.projectId = row.op.projectId
  sandbox : row'.op.sandboxId = row.op.sandboxId
  kind : row'.op.kind = row.op.kind
  pinned : row'.op.executionAllocationId = row.op.executionAllocationId
  count : row'.op.attemptCount = row.op.attemptCount
  receipts : row'.op.attemptReceipts = row.op.attemptReceipts
  status : row'.op.status = row.op.status
  phase : row'.op.phase = row.op.phase
  completed : row'.op.completedAt = row.op.completedAt
  lease : row'.op.leaseExpiresAt = row.op.leaseExpiresAt
  retry : row'.op.nextRetryAt = row.op.nextRetryAt
  summary : row'.summary enc = row.summary enc

/-- The ticket of a row, as far as the evidence and the plans bear it out. -/
structure Saved (row : CommandRow) (e : StreamEvidence) (ticket : OutputTicket) : Prop where
  held : row.outputTicket = some ticket
  valid : ticket.validate = .ok ()
  owner : ticket.owner = e.owner
  limit : ticket.outputLimit = e.receipt.outputLimit
  expiry : some ticket.expiresUnixMs = row.op.outputExpiresAt.map ms
  plans : ∀ plans ∈ row.outputPlan, validatePlans ticket plans e = .ok ()

/-- The work that a row with this ticket saved. -/
def CommandRow.savedWork (row : CommandRow) (e : StreamEvidence) (ticket : OutputTicket) : OutputWork :=
  { ticket, plans := row.outputPlan, receipt := e.receipt, simulated := e.simulated }

section Rows
variable {enc : CommandEncoding} {row row' : CommandRow} {e : StreamEvidence}

theorem SameEvidence.refl (row : CommandRow) : SameEvidence enc row row :=
  ⟨rfl, rfl, rfl, rfl, rfl, rfl, rfl, rfl, rfl, rfl, rfl, rfl, rfl, rfl⟩

theorem SameEvidence.trans {row'' : CommandRow} (first : SameEvidence enc row row')
    (second : SameEvidence enc row' row'') : SameEvidence enc row row'' :=
  ⟨second.allocation.trans first.allocation, second.id.trans first.id,
    second.project.trans first.project, second.sandbox.trans first.sandbox,
    second.kind.trans first.kind, second.pinned.trans first.pinned, second.count.trans first.count,
    second.receipts.trans first.receipts, second.status.trans first.status,
    second.phase.trans first.phase, second.completed.trans first.completed,
    second.lease.trans first.lease, second.retry.trans first.retry,
    second.summary.trans first.summary⟩

/-- A transaction on the output columns alone. -/
theorem SameEvidence.of_output (allocation : row'.allocation = row.allocation)
    (op : row'.op =
      { row.op with outputStatus := row'.op.outputStatus, outputExpiresAt := row'.op.outputExpiresAt })
    (compacted : row'.payloadCompactedAt = row.payloadCompactedAt)
    (summary : row'.commandSummary = row.commandSummary) : SameEvidence enc row row' := by
  refine ⟨allocation, ?_, ?_, ?_, ?_, ?_, ?_, ?_, ?_, ?_, ?_, ?_, ?_, ?_⟩
  case refine_13 =>
    unfold CommandRow.summary
    rw [compacted, summary, op]
  all_goals rw [op]

theorem SameEvidence.evidence (same : SameEvidence enc row row') :
    row'.evidence enc = row.evidence enc := by
  unfold CommandRow.evidence CommandRow.executionEvidence validateIntent ExecuteRow.owner
    ExecuteRow.outputOwner
  simp only [same.allocation, same.id, same.project, same.sandbox, same.kind, same.pinned, same.count,
    same.receipts, same.status, same.phase, same.completed, same.summary]

theorem saved_ok {work : OutputWork} :
    row.saved e = .ok (some work) ↔ ∃ ticket, Saved row e ticket ∧ work = row.savedWork e ticket := by
  unfold CommandRow.saved
  cases held : row.outputTicket with
  | none =>
    constructor
    · intro h
      cases h
    · rintro ⟨ticket, saved, _⟩
      rw [saved.held] at held
      cases held
  | some ticket =>
    cases stored : row.outputPlan with
    | none =>
      simp only [seq_ok, mapError_ok, ensure_ok, pure_ok, Option.some.injEq]
      constructor
      · rintro ⟨valid, ⟨owner, limit, expiry⟩, rfl⟩
        refine ⟨ticket, ⟨held, valid, owner, limit, expiry, fun plans found => ?_⟩, ?_⟩
        · rw [stored] at found
          cases found
        · rw [CommandRow.savedWork, stored]
      · rintro ⟨ticket', ⟨held', valid, owner, limit, expiry, _⟩, rfl⟩
        rw [held] at held'
        cases held'
        exact ⟨valid, ⟨owner, limit, expiry⟩, by rw [CommandRow.savedWork, stored]⟩
    | some saved =>
      simp only [seq_ok, mapError_ok, ensure_ok, pure_ok, Option.some.injEq]
      constructor
      · rintro ⟨valid, ⟨owner, limit, expiry⟩, fits, rfl⟩
        refine ⟨ticket, ⟨held, valid, owner, limit, expiry, fun plans found => ?_⟩, ?_⟩
        · rw [stored] at found
          cases found
          exact fits
        · rw [CommandRow.savedWork, stored]
      · rintro ⟨ticket', ⟨held', valid, owner, limit, expiry, plans⟩, rfl⟩
        rw [held] at held'
        cases held'
        exact ⟨valid, ⟨owner, limit, expiry⟩, plans saved stored, by rw [CommandRow.savedWork, stored]⟩

theorem saved_none (absent : row.outputTicket = none) : row.saved e = .ok none := by
  unfold CommandRow.saved
  rw [absent]
  rfl

theorem saved_absent (h : row.saved e = .ok none) : row.outputTicket = none := by
  unfold CommandRow.saved at h
  cases held : row.outputTicket with
  | none => rfl
  | some ticket =>
    simp only [held] at h
    obtain ⟨_, h⟩ := seq_ok.mp h
    obtain ⟨_, h⟩ := seq_ok.mp h
    split at h
    · cases pure_ok.mp h
    · obtain ⟨_, h⟩ := seq_ok.mp h
      cases pure_ok.mp h

theorem cleanupManifest_ok {manifest : CleanupManifest} :
    row.manifest enc = .ok manifest ↔ row.op.outputStatus.Ticketed ∧ ∃ e ticket references,
      row.evidence enc = .ok e ∧ Saved row e ticket ∧
        row.references e (row.savedWork e ticket) = .ok references ∧
        manifest = { version := 1, ticket, plans := row.outputPlan, references,
                     simulated := e.simulated } := by
  unfold CommandRow.manifest
  rw [seq_ok, ensure_ok]
  refine and_congr_right fun _ => ?_
  constructor
  · intro h
    obtain ⟨e, evidence, h⟩ := bind_ok.mp h
    obtain ⟨found, saved, h⟩ := bind_ok.mp h
    obtain ⟨work, present, h⟩ := bind_ok.mp h
    obtain ⟨references, listed, h⟩ := bind_ok.mp h
    rw [okOr_ok.mp present] at saved
    obtain ⟨ticket, holds, rfl⟩ := saved_ok.mp saved
    exact ⟨e, ticket, references, evidence, holds, listed, (pure_ok.mp h).symm⟩
  · rintro ⟨e, ticket, references, evidence, saved, listed, rfl⟩
    refine bind_ok.mpr ⟨e, evidence, bind_ok.mpr ⟨_, saved_ok.mpr ⟨ticket, saved, rfl⟩, ?_⟩⟩
    exact bind_ok.mpr ⟨row.savedWork e ticket, rfl, bind_ok.mpr ⟨references, listed, rfl⟩⟩

/-- References that were listed stay listed while their row expires. -/
theorem references_keep {work : OutputWork} {references : Option OutputRefs}
    (refs : row'.outputRefs = row.outputRefs)
    (status : row'.op.outputStatus = row.op.outputStatus ∨ row'.op.outputStatus = .expired)
    (h : row.references e work = .ok references) : row'.references e work = .ok references := by
  rcases status with status | expired
  · unfold CommandRow.references at h ⊢
    rw [refs, status]
    exact h
  · unfold CommandRow.references at h ⊢
    rw [refs]
    split at h
    next none =>
      obtain ⟨_, h⟩ := seq_ok.mp h
      refine seq_ok.mpr ⟨ensure_ok.mpr ?_, h⟩
      rw [expired]
      decide
    next stdout stderr both =>
      obtain ⟨_, h⟩ := seq_ok.mp h
      refine seq_ok.mpr ⟨ensure_ok.mpr ?_, h⟩
      rw [expired]
      decide
    · cases h

/-- The manifest survives every transaction that adds nothing to what may be uploaded. -/
theorem manifest_keep {manifest : CleanupManifest} (same : SameEvidence enc row row')
    (ticket : row'.outputTicket = row.outputTicket)
    (expiry : row'.op.outputExpiresAt.map ms = row.op.outputExpiresAt.map ms)
    (plan : row'.outputPlan = row.outputPlan) (refs : row'.outputRefs = row.outputRefs)
    (status : row'.op.outputStatus = row.op.outputStatus ∨ row'.op.outputStatus = .expired)
    (h : row.manifest enc = .ok manifest) : row'.manifest enc = .ok manifest := by
  obtain ⟨ticketed, e, held, references, evidence, saved, listed, rfl⟩ := cleanupManifest_ok.mp h
  have work : row'.savedWork e held = row.savedWork e held := by
    unfold CommandRow.savedWork
    rw [plan]
  refine cleanupManifest_ok.mpr ⟨?_, e, held, references, ?_, ?_, ?_, ?_⟩
  · rcases status with status | expired
    · rw [status]
      exact ticketed
    · exact .inr (.inr expired)
  · rw [same.evidence]
    exact evidence
  · obtain ⟨present, valid, owner, limit, stored, plans⟩ := saved
    refine ⟨ticket.trans present, valid, owner, limit, stored.trans expiry.symm, ?_⟩
    rw [plan]
    exact plans
  · rw [work]
    exact references_keep refs status listed
  · rw [plan]

end Rows

/-! ### Reachable rows -/

/-- The row of the same outcome before its payload was erased and its output collected. -/
def CommandRow.original (input : CommandInput) (row : CommandRow) : ExecuteRow :=
  { row.toExecuteRow with
    op :=
      { row.op with
        payload := input
        outputStatus := if row.op.outputStatus = .none then .none else .pending } }

/-- What is kept of the command that was admitted. -/
def admittedSummary (enc : CommandEncoding) (input : CommandInput) (id : OperationId) : CommandSummary :=
  { version := 1, digest := enc.digest (input.forOperation id),
    deadlineUnixMs := input.deadlineUnixMs, outputLimit := input.outputLimit }

/-- An inventory agrees with the manifest of its row, and a completed one retired all of it. -/
structure Inventoried (hash : OutputPlan → String) (row : CommandRow) (manifest : CleanupManifest)
    (inventory : OutputInventory) : Prop where
  known : ∀ saved ∈ inventory.manifest, row.op.outputStatus = .expired ∧ saved = manifest ∧
    inventory.eligibleAt = some manifest.eligibleAt
  completed : inventory.completedAt ≠ none → inventory.manifest = some manifest ∧
    ∃ receipt ∈ inventory.receipt, receipt.validate hash manifest = .ok ()

inductive Collected (enc : CommandEncoding) (hash : OutputPlan → String) (row : CommandRow) : Prop where
  | untouched (status : row.op.outputStatus = .none ∨
        row.op.outputStatus = .pending ∧ row.payloadCompactedAt = none)
      (ticket : row.outputTicket = none) (plan : row.outputPlan = none) (refs : row.outputRefs = [])
      (cleanup : row.cleanup = none)
  | discarded (status : row.op.outputStatus = .expired) (ticket : row.outputTicket = none)
      (cleanup : row.cleanup = none) (compacted : row.payloadCompactedAt ≠ none)
  | ticketed (manifest : CleanupManifest) (found : row.manifest enc = .ok manifest)
      (inventory : ∀ c ∈ row.cleanup, Inventoried hash row manifest c)
      (compacted : row.payloadCompactedAt ≠ none → ∃ c ∈ row.cleanup, c.completedAt ≠ none)

structure CommandInv (enc : CommandEncoding) (hash : OutputPlan → String) (allowSimulated : Bool)
    (input : CommandInput) (row : CommandRow) : Prop where
  outcome : Outcome enc allowSimulated (row.original input)
  summary : row.summary enc = .ok (admittedSummary enc input row.op.id)
  intact : row.payloadCompactedAt = none → row.op.payload = input
  compacted : row.payloadCompactedAt ≠ none → row.op.status.Terminal
  output : Collected enc hash row

/-- Nothing of the output is left to collect or to clean up. -/
def CommandRow.Expended (row : CommandRow) : Prop :=
  row.op.outputStatus = .none ∨ row.op.outputStatus = .expired ∧
    (row.payloadCompactedAt ≠ none ∨ ∃ c ∈ row.cleanup, c.completedAt ≠ none)

instance (row : CommandRow) : Decidable row.Expended :=
  inferInstanceAs (Decidable (_ ∨ _ ∧ (_ ∨ ∃ c ∈ row.cleanup, _)))

section Reachable
variable {enc : CommandEncoding} {hash : OutputPlan → String} {allowSimulated : Bool}
  {input : CommandInput} {row row' : CommandRow} {now : Time}

theorem finalOutcome_of_consistent {op : ExecuteOperation} {receipt : Receipt}
    (consistent : Consistent op receipt) (ended : op.status.Terminal) :
    finalOutcome receipt = some (op.status, op.phase) ∧ op.completedAt ≠ none := by
  unfold Consistent at consistent
  unfold finalOutcome
  split at consistent <;> simp_all [Status.Terminal]

theorem finalOutcome_phase {receipt : Receipt} {status : Status} {phase : ExecutePhase}
    (final : finalOutcome receipt = some (status, phase)) :
    phase ≠ .notStarted ∧ phase ≠ .cancelledBeforeStart := by
  unfold finalOutcome at final
  split at final <;> cases final <;> decide

theorem original_pending (collected : row.op.outputStatus ≠ .none) :
    (row.original input).op.outputStatus = .pending :=
  if_neg collected

/-- The evidence of a command whose guest reported an outcome. -/
structure Reported (enc : CommandEncoding) (allowSimulated : Bool) (input : CommandInput)
    (row : CommandRow) (e : StreamEvidence) : Prop where
  ended : row.op.status.Terminal
  count : row.op.attemptCount = 1
  evidence : row.evidence enc = .ok e
  policy : e.simulated = true → allowSimulated = true
  receipt : (row.op.attemptReceipts[1]?).bind ExecuteEvidence.guestReceipt = some e.receipt
  phase : row.op.phase ≠ .notStarted ∧ row.op.phase ≠ .cancelledBeforeStart
  intended : validateIntent row.op (row.owner 0 0) (enc.digest (input.forOperation row.op.id)) = .ok ()

theorem CommandInv.reported (inv : CommandInv enc hash allowSimulated input row)
    (collected : row.op.outputStatus ≠ .none) : ∃ e, Reported enc allowSimulated input row e := by
  obtain ⟨ended, second, found, phase⟩ := inv.outcome.collected.mp (original_pending collected)
  have ended : row.op.status.Terminal := ended
  have found : second ∈ row.op.attemptReceipts[1]? := found
  rcases inv.outcome.history with ⟨_, empty, _⟩ | ⟨intent, _, list, _, _⟩ |
    ⟨intent, fence, _, list, _, fenced, _⟩ | ⟨intent, observed, receipt, one, list, own, seen⟩
  · have empty : row.op.attemptReceipts = [] := empty
    rw [empty] at found
    cases found
  · have list : row.op.attemptReceipts = [intent] := list
    rw [list] at found
    cases found
  · have list : row.op.attemptReceipts = [intent, fence] := list
    rw [list] at found
    cases found
    rw [phase] at fenced
    cases fenced
  · have list : row.op.attemptReceipts = [intent, observed] := list
    have one : row.op.attemptCount = 1 := one
    obtain ⟨entry, scope, _, guest, valid, ⟨id, allocation, generation, digest, deadline, limit⟩, consistent⟩ := seen
    obtain ⟨simulated, known, policy⟩ := inv.outcome.reported observed (by
      show observed ∈ row.op.attemptReceipts[1]?
      rw [list]
      exact rfl)
    obtain ⟨final, completed⟩ := finalOutcome_of_consistent consistent ended
    have intended : validateIntent row.op (row.owner 0 0)
        (enc.digest (input.forOperation row.op.id)) = .ok () := by
      simp only [validateIntent, list, bind_ok, okOr_ok, ensure_ok]
      exact ⟨intent, rfl, one, own.digest, own.phase, own.scope⟩
    have both : SameScope observed.owner intent.owner := by
      obtain ⟨a, b, c, d, e, f, g⟩ := scope
      obtain ⟨a', b', c', d', e', f', g'⟩ := own.scope
      exact ⟨a.trans a'.symm, b.trans b'.symm, c.trans c'.symm, d.trans d'.symm, e.trans e'.symm,
        f.trans f'.symm, g.trans g'.symm⟩
    refine ⟨{ owner := row.outputOwner receipt, receipt, simulated }, ended, one, ?_, policy, ?_,
      finalOutcome_phase final, intended⟩
    · simp only [CommandRow.evidence, CommandRow.executionEvidence, bind_ok, okOr_ok, ensure_ok,
        mapError_ok, pure_ok]
      refine ⟨_, ⟨_, inv.outcome.pinned, (), ⟨rfl, inv.outcome.owned⟩, _, inv.summary, (), intended,
        intent, by rw [list]; rfl, observed, by rw [list]; rfl, (), ⟨by rw [list]; rfl, entry, both⟩,
        simulated, known, receipt, guest, (), valid, (),
        ⟨inv.outcome.kind, id, allocation, generation, digest, limit, deadline⟩, rfl⟩,
        _, final, (), ⟨rfl, rfl, completed⟩, rfl⟩
    · rw [list]
      exact guest

/-- What a transaction leaves of a row: its evidence, and nothing collected comes back. -/
structure KeepsEvidence (enc : CommandEncoding) (hash : OutputPlan → String) (allowSimulated : Bool)
    (input : CommandInput) (row row' : CommandRow) : Prop where
  inv : CommandInv enc hash allowSimulated input row'
  same : SameEvidence enc row row'
  expended : row.Expended → row'.Expended

theorem summary_congr (compacted : row'.payloadCompactedAt = row.payloadCompactedAt)
    (summary : row'.commandSummary = row.commandSummary) (payload : row'.op.payload = row.op.payload)
    (id : row'.op.id = row.op.id) : row'.summary enc = row.summary enc := by
  unfold CommandRow.summary
  rw [compacted, summary, payload, id]

/-- The outcome of a row does not depend on how far its output was collected. -/
theorem CommandInv.original (inv : CommandInv enc hash allowSimulated input row)
    (same : SameEvidence enc row row')
    (output : row'.op.outputStatus = .none ↔ row.op.outputStatus = .none) :
    Outcome enc allowSimulated (row'.original input) := by
  have command : SameCommand (row.original input) (row'.original input) :=
    ⟨same.allocation, same.id, same.project, same.sandbox, same.kind, rfl, same.pinned⟩
  have status : (row'.original input).op.outputStatus = (row.original input).op.outputStatus := by
    show (if _ then _ else _) = (if _ then _ else _)
    simp only [output]
  exact inv.outcome.congr
    (inv.outcome.toExecuteInv.reclaim command same.count same.receipts same.phase same.completed status
      (.inl same.status))
    command same.status same.phase same.completed same.lease same.retry same.count same.receipts status

/-- The row of a live output claim: its guest reported, and nothing of it was compacted. -/
theorem CommandInv.open_ (inv : CommandInv enc hash allowSimulated input row)
    (open_ : row.op.outputStatus.Open) : row.op.outputStatus ≠ .none ∧ row.op.outputStatus ≠ .expired ∧
      row.payloadCompactedAt = none := by
  rcases open_ with pending | uploading
  · refine ⟨by rw [pending]; decide, by rw [pending]; decide, ?_⟩
    rcases inv.output with ⟨none | ⟨_, intact⟩, _⟩ | ⟨expired, _⟩ | ⟨_, found, _⟩
    · rw [pending] at none
      cases none
    · exact intact
    · rw [pending] at expired
      cases expired
    · have ticketed := (cleanupManifest_ok.mp found).1
      rw [pending] at ticketed
      exact absurd ticketed (by decide)
  · refine ⟨by rw [uploading]; decide, by rw [uploading]; decide, ?_⟩
    rcases inv.output with ⟨none | ⟨pending, _⟩, _⟩ | ⟨expired, _⟩ | ⟨manifest, found, inventory, compacted⟩
    · rw [uploading] at none
      cases none
    · rw [uploading] at pending
      cases pending
    · rw [uploading] at expired
      cases expired
    · by_contra erased
      obtain ⟨c, held, done⟩ := compacted erased
      have known := (inventory c held).completed done
      have expired := ((inventory c held).known manifest known.1).1
      rw [uploading] at expired
      cases expired

/-- While the output can still be published, no manifest was fixed for its cleanup. -/
theorem Inventoried.open_ {manifest manifest' : CleanupManifest} {c : OutputInventory}
    (agrees : Inventoried hash row manifest c) (live : row.op.outputStatus ≠ .expired) :
    Inventoried hash row' manifest' c := by
  have unknown : c.manifest = none := by
    cases known : c.manifest with
    | none => rfl
    | some saved => exact absurd (agrees.known saved known).1 live
  refine ⟨fun saved found => ?_, fun done => ?_⟩
  · rw [unknown] at found
    cases found
  · have held := (agrees.completed done).1
    rw [unknown] at held
    cases held

/-- The claim columns of the inventory moved, and nothing else. -/
def OutputInventory.Reclaimed (c c' : OutputInventory) : Prop :=
  c'.manifest = c.manifest ∧ c'.eligibleAt = c.eligibleAt ∧ c'.completedAt = c.completedAt ∧
    c'.receipt = c.receipt

/-- A transaction on claims and on the retention of the response. -/
theorem CommandInv.reclaim (inv : CommandInv enc hash allowSimulated input row)
    (allocation : row'.allocation = row.allocation)
    (retained : ∃ expires, row'.op = { row.op with responseExpiresAt := expires })
    (ticket : row'.outputTicket = row.outputTicket)
    (plan : row'.outputPlan = row.outputPlan) (refs : row'.outputRefs = row.outputRefs)
    (compacted : row'.payloadCompactedAt = row.payloadCompactedAt)
    (summary : row'.commandSummary = row.commandSummary)
    (cleanup : Option.Rel OutputInventory.Reclaimed row.cleanup row'.cleanup) :
    KeepsEvidence enc hash allowSimulated input row row' := by
  obtain ⟨expires, op⟩ := retained
  have kept : row'.summary enc = row.summary enc :=
    summary_congr compacted summary (by rw [op]) (by rw [op])
  have same : SameEvidence enc row row' := by
    refine ⟨allocation, ?_, ?_, ?_, ?_, ?_, ?_, ?_, ?_, ?_, ?_, ?_, ?_, kept⟩
    all_goals rw [op]
  have done : (∃ c ∈ row.cleanup, c.completedAt ≠ none) → ∃ c ∈ row'.cleanup, c.completedAt ≠ none := by
    rintro ⟨c, found, done⟩
    have found : row.cleanup = some c := found
    rw [found] at cleanup
    cases held : row'.cleanup with
    | none =>
      rw [held] at cleanup
      cases cleanup
    | some c' =>
      rw [held] at cleanup
      cases cleanup with
      | some touched =>
        refine ⟨c', rfl, ?_⟩
        rw [touched.2.2.1]
        exact done
  refine ⟨⟨inv.original same (by rw [op]), ?_, ?_, ?_, ?_⟩, same, ?_⟩
  · rw [kept, op]
    exact inv.summary
  · rw [compacted, op]
    exact inv.intact
  · rw [compacted, op]
    exact inv.compacted
  · rcases inv.output with ⟨status, absent, unplanned, unlisted, uncleaned⟩ |
      ⟨expired, absent, uncleaned, erased⟩ | ⟨manifest, found, inventory, known⟩
    · rw [uncleaned] at cleanup
      cases held : row'.cleanup with
      | none =>
        refine .untouched ?_ (ticket.trans absent) (plan.trans unplanned) (refs.trans unlisted) held
        rw [op, compacted]
        exact status
      | some c =>
        rw [held] at cleanup
        cases cleanup
    · rw [uncleaned] at cleanup
      cases held : row'.cleanup with
      | none =>
        refine .discarded ?_ (ticket.trans absent) held ?_
        · rw [op]
          exact expired
        · rw [compacted]
          exact erased
      | some c =>
        rw [held] at cleanup
        cases cleanup
    · refine .ticketed manifest (manifest_keep same ticket (by rw [op]) plan refs (.inl (by rw [op])) found) ?_ ?_
      · intro c' held
        have held : row'.cleanup = some c' := held
        rw [held] at cleanup
        cases present : row.cleanup with
        | none =>
          rw [present] at cleanup
          cases cleanup
        | some c =>
          rw [present] at cleanup
          cases cleanup with
          | some touched =>
            obtain ⟨sameManifest, eligible, completed, receipt⟩ := touched
            have agrees := inventory c present
            refine ⟨?_, ?_⟩
            · rw [sameManifest, eligible, op]
              exact agrees.known
            · rw [completed, sameManifest, receipt]
              exact agrees.completed
      · intro erased
        rw [compacted] at erased
        exact done (known erased)
  · unfold CommandRow.Expended
    rw [op, compacted]
    rintro (none | ⟨expired, erased | completed⟩)
    · exact .inl none
    · exact .inr ⟨expired, .inl erased⟩
    · exact .inr ⟨expired, .inr (done completed)⟩

theorem reclaimed_refl (cleanup : Option OutputInventory) :
    Option.Rel OutputInventory.Reclaimed cleanup cleanup := by
  cases cleanup with
  | none => exact .none
  | some c => exact .some ⟨rfl, rfl, rfl, rfl⟩

theorem claimOutput_keeps {lease : ℤ} (inv : CommandInv enc hash allowSimulated input row)
    (h : claimOutput row lease now = .ok row') : KeepsEvidence enc hash allowSimulated input row row' := by
  unfold claimOutput at h
  obtain ⟨_, h⟩ := seq_ok.mp h
  obtain ⟨_, h⟩ := seq_ok.mp h
  rw [← pure_ok.mp h]
  exact inv.reclaim rfl ⟨_, rfl⟩ rfl rfl rfl rfl rfl (reclaimed_refl _)

theorem renewOutputClaim_keeps {claim : OutputClaim} {lease : ℤ}
    (inv : CommandInv enc hash allowSimulated input row)
    (h : renewOutputClaim row claim lease now = .ok row') :
    KeepsEvidence enc hash allowSimulated input row row' := by
  unfold renewOutputClaim at h
  obtain ⟨_, h⟩ := seq_ok.mp h
  obtain ⟨_, h⟩ := seq_ok.mp h
  rw [← pure_ok.mp h]
  exact inv.reclaim rfl ⟨_, rfl⟩ rfl rfl rfl rfl rfl (reclaimed_refl _)

theorem deferOutput_keeps {claim : OutputClaim} {delay : ℤ}
    (inv : CommandInv enc hash allowSimulated input row)
    (h : deferOutput row claim delay now = .ok row') :
    KeepsEvidence enc hash allowSimulated input row row' := by
  unfold deferOutput at h
  obtain ⟨_, h⟩ := seq_ok.mp h
  obtain ⟨_, h⟩ := seq_ok.mp h
  rw [← pure_ok.mp h]
  exact inv.reclaim rfl ⟨_, rfl⟩ rfl rfl rfl rfl rfl (reclaimed_refl _)

theorem claimOutputCleanup_keeps {lease : ℤ} (inv : CommandInv enc hash allowSimulated input row)
    (h : claimOutputCleanup row lease now = .ok row') :
    KeepsEvidence enc hash allowSimulated input row row' := by
  unfold claimOutputCleanup at h
  obtain ⟨_, h⟩ := seq_ok.mp h
  obtain ⟨c, found, h⟩ := bind_ok.mp h
  obtain ⟨_, h⟩ := seq_ok.mp h
  rw [← pure_ok.mp h]
  refine inv.reclaim rfl ⟨_, rfl⟩ rfl rfl rfl rfl rfl ?_
  rw [okOr_ok.mp found]
  exact .some ⟨rfl, rfl, rfl, rfl⟩

theorem cleaning_ok {claim : CleanupClaim} {c : OutputInventory} (h : row.cleaning claim now = .ok c) :
    row.cleanup = some c := by
  unfold CommandRow.cleaning at h
  obtain ⟨c', found, h⟩ := bind_ok.mp h
  obtain ⟨_, h⟩ := seq_ok.mp h
  rw [← pure_ok.mp h]
  exact okOr_ok.mp found

theorem deferOutputCleanup_keeps {claim : CleanupClaim} {delay : ℤ}
    (inv : CommandInv enc hash allowSimulated input row)
    (h : deferOutputCleanup row claim delay now = .ok row') :
    KeepsEvidence enc hash allowSimulated input row row' := by
  unfold deferOutputCleanup at h
  obtain ⟨_, h⟩ := seq_ok.mp h
  obtain ⟨c, found, h⟩ := bind_ok.mp h
  rw [← pure_ok.mp h]
  refine inv.reclaim rfl ⟨_, rfl⟩ rfl rfl rfl rfl rfl ?_
  rw [cleaning_ok found]
  exact .some ⟨rfl, rfl, rfl, rfl⟩

/-- A transaction that fixed or widened what the row's output may consist of. -/
theorem CommandInv.catalogue {manifest : CleanupManifest}
    (inv : CommandInv enc hash allowSimulated input row) (same : SameEvidence enc row row')
    (collected : row.op.outputStatus ≠ .none) (payload : row'.op.payload = row.op.payload)
    (compacted : row'.payloadCompactedAt = row.payloadCompactedAt)
    (found : row'.manifest enc = .ok manifest)
    (inventory : ∀ c ∈ row'.cleanup, Inventoried hash row' manifest c)
    (done : row.payloadCompactedAt ≠ none → ∃ c ∈ row'.cleanup, c.completedAt ≠ none) :
    CommandInv enc hash allowSimulated input row' := by
  have ticketed := (cleanupManifest_ok.mp found).1
  have collected' : row'.op.outputStatus ≠ .none := by
    intro none
    rw [none] at ticketed
    exact absurd ticketed (by decide)
  refine ⟨inv.original same (iff_of_false collected' collected), ?_, ?_, ?_, ?_⟩
  · rw [same.summary, same.id]
    exact inv.summary
  · rw [compacted, payload]
    exact inv.intact
  · rw [compacted, same.status]
    exact inv.compacted
  · refine .ticketed manifest found inventory ?_
    rw [compacted]
    exact done

/-- Under a live output claim nothing is expended and nothing fixed for cleanup. -/
theorem CommandInv.publish {manifest : CleanupManifest}
    (inv : CommandInv enc hash allowSimulated input row) (same : SameEvidence enc row row')
    (live : row.op.outputStatus.Open) (payload : row'.op.payload = row.op.payload)
    (compacted : row'.payloadCompactedAt = row.payloadCompactedAt)
    (cleanup : row'.cleanup = row.cleanup) (found : row'.manifest enc = .ok manifest) :
    KeepsEvidence enc hash allowSimulated input row row' := by
  obtain ⟨collected, unexpired, intact⟩ := inv.open_ live
  refine ⟨inv.catalogue same collected payload compacted found ?_ fun erased => absurd intact erased,
    same, ?_⟩
  · intro c held
    rw [cleanup] at held
    rcases inv.output with ⟨_, _, _, _, uncleaned⟩ | ⟨_, _, uncleaned, _⟩ | ⟨before, _, inventory, _⟩
    · rw [uncleaned] at held
      cases held
    · rw [uncleaned] at held
      cases held
    · exact (inventory c held).open_ unexpired
  · rintro (none | ⟨expired, _⟩)
    · exact absurd none collected
    · exact absurd expired unexpired

theorem enqueueExpiredOutput_keeps (inv : CommandInv enc hash allowSimulated input row)
    (h : enqueueExpiredOutput row now = .ok row') : KeepsEvidence enc hash allowSimulated input row row' := by
  unfold enqueueExpiredOutput at h
  obtain ⟨checked, h⟩ := seq_ok.mp h
  obtain ⟨_, ticket, _, uncleaned⟩ := ensure_ok.mp checked
  rw [← pure_ok.mp h]
  rcases inv.output with ⟨_, absent, _⟩ | ⟨_, absent, _⟩ | ⟨manifest, found, _, known⟩
  · exact absurd absent ticket
  · exact absurd absent ticket
  · have intact : row.payloadCompactedAt = none := by
      by_contra erased
      obtain ⟨c, held, _⟩ := known erased
      rw [uncleaned] at held
      cases held
    have collected : row.op.outputStatus ≠ .none := by
      intro none
      have ticketed := (cleanupManifest_ok.mp found).1
      rw [none] at ticketed
      exact absurd ticketed (by decide)
    have same {cleanup : Option OutputInventory} : SameEvidence enc row { row with cleanup } :=
      .of_output rfl rfl rfl rfl
    refine ⟨inv.catalogue same collected rfl rfl (manifest_keep same rfl rfl rfl rfl (.inl rfl) found) ?_
      fun erased => absurd intact erased, same, ?_⟩
    · intro c held
      cases held
      constructor
      · intro saved unknown
        cases unknown
      · intro done
        exact absurd rfl done
    · rintro (none | ⟨_, erased | ⟨c, held, _⟩⟩)
      · exact absurd none collected
      · exact absurd intact erased
      · rw [uncleaned] at held
        cases held

theorem claimed_ok {claim : OutputClaim} {projectDeleting : Bool}
    (h : row.claimed claim projectDeleting now = .ok ()) : row.op.outputStatus.Open := by
  unfold CommandRow.claimed at h
  obtain ⟨fenced, _⟩ := seq_ok.mp h
  exact (ensure_ok.mp fenced).2.2.2

/-- The plans of a saved ticket, or nothing at all where the row has none. -/
theorem preparedWork_ok {e : StreamEvidence} {work : OutputWork} {retention grace : ℤ}
    {attempt : OperationId} (h : preparedWork row e retention grace attempt = .ok work) :
    (∃ ticket, Saved row e ticket ∧ work = row.savedWork e ticket) ∨
      row.outputTicket = none ∧ work.ticket.owner = e.owner ∧
        work.ticket.outputLimit = e.receipt.outputLimit := by
  unfold preparedWork at h
  obtain ⟨found, saved, h⟩ := bind_ok.mp h
  cases found with
  | some held =>
    rw [← pure_ok.mp h]
    exact .inl (saved_ok.mp saved)
  | none =>
    obtain ⟨completed, _, h⟩ := bind_ok.mp h
    rw [← pure_ok.mp h]
    exact .inr ⟨saved_absent saved, rfl, rfl⟩

theorem ms_of_ms (t : ℤ) : ms (t * 1000) = t := by
  unfold ms
  omega

/-- The references of a row whose output is still collected: none, while it may be uploading. -/
theorem Collected.unlisted (output : Collected enc hash row) (live : row.op.outputStatus.Open) :
    row.outputRefs = [] ∧ (row.outputTicket = none → row.outputPlan = none) := by
  rcases output with ⟨_, _, unplanned, unlisted, _⟩ | ⟨expired, _⟩ | ⟨_, found, _⟩
  · exact ⟨unlisted, fun _ => unplanned⟩
  · rw [expired] at live
    exact absurd live (by decide)
  · obtain ⟨ticketed, e, ticket, references, _, saved, listed, _⟩ := cleanupManifest_ok.mp found
    refine ⟨?_, fun absent => ?_⟩
    · have uploading : row.op.outputStatus = .uploading := by
        rcases live with pending | uploading
        · rw [pending] at ticketed
          exact absurd ticketed (by decide)
        · exact uploading
      unfold CommandRow.references at listed
      split at listed
      next none => exact none
      next =>
        obtain ⟨checked, _⟩ := seq_ok.mp listed
        exact absurd uploading (ensure_ok.mp checked)
      · cases listed
    · rw [saved.held] at absent
      cases absent

theorem prepareOutput_keeps {claim : OutputClaim} {retention grace : ℤ} {attempt : OperationId}
    {projectDeleting allowed : Bool} {work : Option OutputWork}
    (inv : CommandInv enc hash allowSimulated input row)
    (h : prepareOutput enc row claim retention grace attempt projectDeleting allowed now = .ok (row', work)) :
    KeepsEvidence enc hash allowSimulated input row row' := by
  unfold prepareOutput at h
  obtain ⟨_, h⟩ := seq_ok.mp h
  obtain ⟨checked, h⟩ := seq_ok.mp h
  have live := claimed_ok checked
  obtain ⟨e, evidence, h⟩ := bind_ok.mp h
  obtain ⟨_, h⟩ := seq_ok.mp h
  obtain ⟨work, prepared, h⟩ := bind_ok.mp h
  obtain ⟨valid, h⟩ := seq_ok.mp h
  have valid := mapError_ok.mp valid
  obtain ⟨unlisted, unplanned⟩ := inv.output.unlisted live
  -- the ticket as it is written, whichever status the row gets beside it
  have written (status : OutputStatus) (lease : Option Time)
      (known : status = .uploading ∨ status = .expired) :
      KeepsEvidence enc hash allowSimulated input row
        { row with
          outputTicket := some work.ticket
          outputLeaseExpiresAt := lease
          op := { row.op with
            outputStatus := status, outputExpiresAt := some (work.ticket.expiresUnixMs * 1000) } } := by
    have same : SameEvidence enc row
        { row with
          outputTicket := some work.ticket
          outputLeaseExpiresAt := lease
          op := { row.op with
            outputStatus := status, outputExpiresAt := some (work.ticket.expiresUnixMs * 1000) } } :=
      .of_output rfl rfl rfl rfl
    refine inv.publish same live rfl rfl rfl
      (cleanupManifest_ok.mpr ⟨?_, e, work.ticket, none, same.evidence.trans evidence, ?_, ?_, rfl⟩)
    · rcases known with rfl | rfl
      · exact .inl rfl
      · exact .inr (.inr rfl)
    · have expiry : some work.ticket.expiresUnixMs = (some (work.ticket.expiresUnixMs * 1000)).map ms := by
        rw [Option.map_some, ms_of_ms]
      rcases preparedWork_ok prepared with ⟨ticket, saved, rfl⟩ | ⟨absent, owner, limit⟩
      · exact ⟨rfl, saved.valid, saved.owner, saved.limit, expiry, saved.plans⟩
      · refine ⟨rfl, valid, owner, limit, expiry, fun plans held => ?_⟩
        have held : row.outputPlan = some plans := held
        rw [unplanned absent] at held
        cases held
    · unfold CommandRow.references
      simp only [unlisted]
      rcases known with rfl | rfl <;> rfl
  dsimp only at h
  split at h
  · cases pure_ok.mp h
    exact written .expired none (.inr rfl)
  · cases pure_ok.mp h
    exact written .uploading row.outputLeaseExpiresAt (.inl rfl)

theorem claimedWork_ok {claim : OutputClaim} {projectDeleting allowed : Bool} {e : StreamEvidence}
    {work : OutputWork}
    (h : row.claimedWork enc claim projectDeleting allowed now = .ok (e, work)) :
    row.op.outputStatus.Open ∧ row.evidence enc = .ok e ∧
      ∃ ticket, Saved row e ticket ∧ work = row.savedWork e ticket := by
  unfold CommandRow.claimedWork at h
  obtain ⟨checked, h⟩ := seq_ok.mp h
  obtain ⟨e', evidence, h⟩ := bind_ok.mp h
  obtain ⟨_, h⟩ := seq_ok.mp h
  obtain ⟨found, saved, h⟩ := bind_ok.mp h
  obtain ⟨work', present, h⟩ := bind_ok.mp h
  rw [okOr_ok.mp present] at saved
  cases pure_ok.mp h
  exact ⟨claimed_ok checked, evidence, saved_ok.mp saved⟩

theorem saveOutputPlans_keeps {claim : OutputClaim} {plans : OutputPlans}
    {projectDeleting allowed : Bool} (inv : CommandInv enc hash allowSimulated input row)
    (h : saveOutputPlans enc row claim plans projectDeleting allowed now = .ok row') :
    KeepsEvidence enc hash allowSimulated input row row' := by
  unfold saveOutputPlans at h
  obtain ⟨⟨e, work⟩, found, h⟩ := bind_ok.mp h
  obtain ⟨live, evidence, ticket, saved, rfl⟩ := claimedWork_ok found
  obtain ⟨fits, h⟩ := seq_ok.mp h
  obtain ⟨_, h⟩ := seq_ok.mp h
  obtain ⟨_, h⟩ := seq_ok.mp h
  rw [← pure_ok.mp h]
  have ticketed : row.op.outputStatus.Ticketed := by
    rcases inv.output with ⟨_, absent, _⟩ | ⟨_, absent, _⟩ | ⟨_, known, _⟩
    · rw [saved.held] at absent
      cases absent
    · rw [saved.held] at absent
      cases absent
    · exact (cleanupManifest_ok.mp known).1
  have same : SameEvidence enc row { row with outputPlan := some plans } := .of_output rfl rfl rfl rfl
  refine inv.publish same live rfl rfl rfl
    (cleanupManifest_ok.mpr ⟨ticketed, e, ticket, none, same.evidence.trans evidence, ?_, ?_, rfl⟩)
  · refine ⟨saved.held, saved.valid, saved.owner, saved.limit, saved.expiry, fun held same => ?_⟩
    cases same
    exact fits
  · unfold CommandRow.references
    simp only [(inv.output.unlisted live).1]
    refine seq_ok.mpr ⟨ensure_ok.mpr ?_, rfl⟩
    rcases live with pending | uploading
    · rw [pending]
      decide
    · rw [uploading]
      decide

theorem publishOutput_keeps {claim : OutputClaim} {refs : OutputRefs} {projectDeleting allowed : Bool}
    (inv : CommandInv enc hash allowSimulated input row)
    (h : publishOutput enc row claim refs projectDeleting allowed now = .ok row') :
    KeepsEvidence enc hash allowSimulated input row row' := by
  unfold publishOutput at h
  obtain ⟨⟨e, work⟩, found, h⟩ := bind_ok.mp h
  obtain ⟨live, evidence, ticket, saved, rfl⟩ := claimedWork_ok found
  obtain ⟨valid, h⟩ := seq_ok.mp h
  obtain ⟨_, h⟩ := seq_ok.mp h
  obtain ⟨planned, h⟩ := seq_ok.mp h
  obtain ⟨_, h⟩ := seq_ok.mp h
  rw [← pure_ok.mp h]
  have same : SameEvidence enc row
      { row with
        outputRefs := [refs.stdout, refs.stderr]
        outputLeaseExpiresAt := none
        outputNextRetryAt := none
        op := { row.op with outputStatus := .published } } :=
    .of_output rfl rfl rfl rfl
  refine inv.publish same live rfl rfl rfl
    (cleanupManifest_ok.mpr ⟨.inr (.inl rfl), e, ticket, some refs, same.evidence.trans evidence, ?_, ?_, rfl⟩)
  · exact ⟨saved.held, saved.valid, saved.owner, saved.limit, saved.expiry, saved.plans⟩
  · have published : OutputStatus.published ≠ .uploading := by decide
    refine seq_ok.mpr ⟨ensure_ok.mpr published, seq_ok.mpr ⟨mapError_ok.mpr (mapError_ok.mp valid), ?_⟩⟩
    exact seq_ok.mpr ⟨ensure_ok.mpr (ensure_ok.mp planned), rfl⟩

theorem prepareOutputCleanup_keeps {claim : CleanupClaim} {preparation : CleanupPreparation}
    (inv : CommandInv enc hash allowSimulated input row)
    (h : prepareOutputCleanup enc row claim now = .ok (row', preparation)) :
    KeepsEvidence enc hash allowSimulated input row row' := by
  unfold prepareOutputCleanup at h
  obtain ⟨c, cleaning, h⟩ := bind_ok.mp h
  have held := cleaning_ok cleaning
  obtain ⟨unfinished, h⟩ := seq_ok.mp h
  have unfinished := ensure_ok.mp unfinished
  obtain ⟨manifest, found, h⟩ := bind_ok.mp h
  obtain ⟨_, h⟩ := seq_ok.mp h
  obtain ⟨_, h⟩ := seq_ok.mp h
  cases pure_ok.mp h
  have same {revision : ℤ} {lease : Option Time} : SameEvidence enc row
      { row with
        outputClaimRevision := revision
        outputLeaseExpiresAt := none
        outputNextRetryAt := none
        op := { row.op with outputStatus := .expired }
        cleanup := some
          { c with
            manifest := some manifest, eligibleAt := some manifest.eligibleAt
            leaseExpiresAt := lease } } :=
    .of_output rfl rfl rfl rfl
  have collected : row.op.outputStatus ≠ .none := by
    intro none
    have ticketed := (cleanupManifest_ok.mp found).1
    rw [none] at ticketed
    exact absurd ticketed (by decide)
  have unerased : row.payloadCompactedAt = none := by
    by_contra erased
    rcases inv.output with ⟨_, _, _, _, uncleaned⟩ | ⟨_, _, uncleaned, _⟩ | ⟨_, _, _, known⟩
    · rw [held] at uncleaned
      cases uncleaned
    · rw [held] at uncleaned
      cases uncleaned
    · obtain ⟨c', held', done⟩ := known erased
      rw [held] at held'
      cases held'
      exact done unfinished
  refine ⟨inv.catalogue same collected rfl rfl (manifest_keep same rfl rfl rfl rfl (.inr rfl) found) ?_
    fun erased => absurd unerased erased, same, ?_⟩
  · intro c' held'
    cases held'
    constructor
    · intro saved known
      cases known
      exact ⟨rfl, rfl, rfl⟩
    · intro done
      exact absurd unfinished done
  · rintro (none | ⟨_, erased | ⟨c', held', done⟩⟩)
    · exact absurd none collected
    · exact absurd unerased erased
    · rw [held] at held'
      cases held'
      exact absurd unfinished done

theorem completeOutputCleanup_keeps {claim : CleanupClaim} {receipt : CleanupCompletion}
    {allowed : Bool} (inv : CommandInv enc hash allowSimulated input row)
    (h : completeOutputCleanup enc hash row claim receipt allowed now = .ok row') :
    KeepsEvidence enc hash allowSimulated input row row' := by
  unfold completeOutputCleanup at h
  obtain ⟨c, found, h⟩ := bind_ok.mp h
  have held := okOr_ok.mp found
  obtain ⟨_, h⟩ := seq_ok.mp h
  obtain ⟨current, manifest, h⟩ := bind_ok.mp h
  obtain ⟨saved, known, h⟩ := bind_ok.mp h
  have known := okOr_ok.mp known
  obtain ⟨agrees, h⟩ := seq_ok.mp h
  obtain ⟨rfl, expired, eligible⟩ := ensure_ok.mp agrees
  obtain ⟨_, h⟩ := seq_ok.mp h
  obtain ⟨valid, h⟩ := seq_ok.mp h
  have collected : row.op.outputStatus ≠ .none := by
    rw [expired]
    decide
  split at h
  · obtain ⟨_, h⟩ := seq_ok.mp h
    rw [← pure_ok.mp h]
    exact ⟨inv, .refl row, fun expended => expended⟩
  · obtain ⟨_, h⟩ := seq_ok.mp h
    rw [← pure_ok.mp h]
    have same {cleanup : Option OutputInventory} : SameEvidence enc row { row with cleanup } :=
      .of_output rfl rfl rfl rfl
    have done : some now ≠ none := Option.some_ne_none now
    refine ⟨inv.catalogue same collected rfl rfl (manifest_keep same rfl rfl rfl rfl (.inl rfl) manifest) ?_
      fun _ => ⟨_, rfl, done⟩, same, fun _ => .inr ⟨expired, .inr ⟨_, rfl, done⟩⟩⟩
    intro c' held'
    cases held'
    constructor
    · intro other same
      have same : c.manifest = some other := same
      rw [known] at same
      cases same
      exact ⟨expired, rfl, eligible⟩
    · intro _
      exact ⟨known, receipt, rfl, valid⟩

/-- An erased payload is kept as the summary of the command that was admitted. -/
theorem CommandInv.compactedSummary (inv : CommandInv enc hash allowSimulated input row) :
    (row.compacted (admittedSummary enc input row.op.id) now).summary enc =
      .ok (admittedSummary enc input row.op.id) := by
  have limit := (CommandInput.validate_limit inv.outcome.payload).2
  have erased : (row.compacted (admittedSummary enc input row.op.id) now).payloadCompactedAt ≠ none :=
    Option.some_ne_none now
  unfold CommandRow.summary
  rw [if_pos erased]
  refine bind_ok.mpr ⟨_, rfl, seq_ok.mpr ⟨ensure_ok.mpr ?_, rfl⟩⟩
  exact ⟨rfl, inv.outcome.deadline, limit, rfl⟩

theorem validateExpired_summary {request : Except OutputError Unit} {summary : CommandSummary}
    (h : row.validateExpired enc hash request = .ok summary) : row.summary enc = .ok summary := by
  unfold CommandRow.validateExpired at h
  obtain ⟨_, h⟩ := seq_ok.mp h
  obtain ⟨found, summarized, h⟩ := bind_ok.mp h
  split at h
  · obtain ⟨_, _, h⟩ := bind_ok.mp h
    rw [← pure_ok.mp h]
    exact summarized
  split at h
  · obtain ⟨_, h⟩ := seq_ok.mp h
    rw [← pure_ok.mp h]
    exact summarized
  · rw [← pure_ok.mp h]
    exact summarized

theorem CommandInv.compact (inv : CommandInv enc hash allowSimulated input row)
    (selected : row.Compactable now) :
    KeepsEvidence enc hash allowSimulated input row
      (row.compacted (admittedSummary enc input row.op.id) now) := by
  obtain ⟨intact, _, ended, _, _, _, _, output⟩ := selected
  have kept : (row.compacted (admittedSummary enc input row.op.id) now).summary enc = _ :=
    inv.compactedSummary
  have same : SameEvidence enc row (row.compacted (admittedSummary enc input row.op.id) now) :=
    ⟨rfl, rfl, rfl, rfl, rfl, rfl, rfl, rfl, rfl, rfl, rfl, rfl, rfl, kept.trans inv.summary.symm⟩
  have erased : (row.compacted (admittedSummary enc input row.op.id) now).payloadCompactedAt ≠ none :=
    Option.some_ne_none now
  have moved : (row.compacted (admittedSummary enc input row.op.id) now).op.outputStatus =
      if row.op.outputStatus = .pending then .expired else row.op.outputStatus := rfl
  have status : (row.compacted (admittedSummary enc input row.op.id) now).op.outputStatus = .none ↔
      row.op.outputStatus = .none := by
    rw [moved]
    split
    next pending => simp [pending]
    · exact Iff.rfl
  refine ⟨⟨inv.original same status, kept, fun none => absurd none erased, fun _ => ended, ?_⟩, same, ?_⟩
  · rcases inv.output with ⟨none | ⟨pending, _⟩, absent, unplanned, unlisted, uncleaned⟩ |
      ⟨_, _, _, already⟩ | ⟨manifest, found, inventory, _⟩
    · exact .untouched (.inl (status.mpr none)) absent unplanned unlisted uncleaned
    · refine .discarded ?_ absent uncleaned erased
      rw [moved, if_pos pending]
    · exact absurd intact already
    · have ticketed := (cleanupManifest_ok.mp found).1
      rcases output with none | pending | ⟨expired, completed⟩
      · rw [none] at ticketed
        exact absurd ticketed (by decide)
      · rw [pending] at ticketed
        exact absurd ticketed (by decide)
      · have unmoved : (row.compacted (admittedSummary enc input row.op.id) now).op.outputStatus =
            .expired := by
          rw [moved, if_neg, expired]
          rw [expired]
          decide
        have expiry : (row.compacted (admittedSummary enc input row.op.id) now).op.outputExpiresAt =
            row.op.outputExpiresAt := by
          refine if_neg ?_
          rw [expired]
          decide
        refine .ticketed manifest (manifest_keep same rfl (by rw [expiry]) rfl rfl (.inr unmoved) found)
          ?_ fun _ => completed
        intro c held
        obtain ⟨known, done⟩ := inventory c held
        exact ⟨fun saved same => ⟨unmoved, (known saved same).2⟩, done⟩
  · intro _
    rcases output with none | pending | ⟨expired, completed⟩
    · exact .inl (status.mpr none)
    · refine .inr ⟨?_, .inl erased⟩
      rw [moved, if_pos pending]
    · refine .inr ⟨?_, .inl erased⟩
      rw [moved, if_neg, expired]
      rw [expired]
      decide

theorem compactExpiredResponse_keeps {request : Except OutputError Unit} {result : Compaction}
    (inv : CommandInv enc hash allowSimulated input row)
    (h : compactExpiredResponse enc hash row request now = .ok (row', result)) :
    KeepsEvidence enc hash allowSimulated input row row' := by
  unfold compactExpiredResponse at h
  split at h
  · cases h
    exact ⟨inv, .refl row, fun expended => expended⟩
  next selected =>
    split at h
    next summary validated =>
      have summarized := validateExpired_summary validated
      rw [inv.summary] at summarized
      cases summarized
      cases h
      exact inv.compact (not_not.mp selected)
    · cases h
      exact inv.reclaim rfl ⟨_, rfl⟩ rfl rfl rfl rfl rfl (reclaimed_refl _)
    · cases h
      exact inv.reclaim rfl ⟨_, rfl⟩ rfl rfl rfl rfl rfl (reclaimed_refl _)
    · cases h

/-- A row that waits for its outcome is the one that was admitted and executed, as it stands. -/
theorem CommandInv.waiting (inv : CommandInv enc hash allowSimulated input row)
    (waiting : ¬row.op.status.Terminal) :
    row.original input = row.toExecuteRow ∧ row.op.outputStatus = .none ∧
      row.payloadCompactedAt = none := by
  have intact : row.payloadCompactedAt = none := by
    by_contra erased
    exact waiting (inv.compacted erased)
  have none : row.op.outputStatus = .none := by
    by_contra collected
    have pending : (row.original input).op.outputStatus = .pending := original_pending collected
    rw [inv.outcome.waiting waiting] at pending
    cases pending
  refine ⟨?_, none, intact⟩
  unfold CommandRow.original
  rw [if_pos none, ← none, ← inv.intact intact]

theorem execute_keeps (event : ExecuteEvent) (inv : CommandInv enc hash allowSimulated input row) :
    let next : CommandRow :=
      { row with toExecuteRow := executeStep enc row.toExecuteRow (event.under allowSimulated) }
    CommandInv enc hash allowSimulated input next ∧
      (row.op.status.Terminal → KeepsEvidence enc hash allowSimulated input row next) := by
  intro next
  obtain ⟨allocation, moves⟩ := executeStep_moves row.toExecuteRow event
  by_cases ended : row.op.status.Terminal
  · have retains : KeepsEvidence enc hash allowSimulated input row next :=
      inv.reclaim allocation (moves.terminal ended) rfl rfl rfl rfl rfl (reclaimed_refl _)
    exact ⟨retains.inv, fun _ => retains⟩
  · obtain ⟨same, none, intact⟩ := inv.waiting ended
    have outcome : Outcome enc allowSimulated row.toExecuteRow := by
      rw [← same]
      exact inv.outcome
    have reached := executeStep_outcome row.toExecuteRow event outcome
    have command : SameCommand row.toExecuteRow next.toExecuteRow := moves.same allocation
    have payload : next.op.payload = input := command.payload.trans (inv.intact intact)
    have whole : next.original input = next.toExecuteRow := by
      unfold CommandRow.original
      have output : (if next.op.outputStatus = .none then OutputStatus.none else .pending) =
          next.op.outputStatus := by
        rcases reached.output with none | pending
        · rw [if_pos none]
          exact none.symm
        · have collected : next.op.outputStatus ≠ .none := by
            intro none
            rw [none] at pending
            cases pending
          rw [if_neg collected]
          exact pending.symm
      rw [output, ← payload]
    refine ⟨⟨?_, ?_, fun _ => payload, fun erased => absurd intact erased, ?_⟩, fun done => absurd done ended⟩
    · rw [whole]
      exact reached
    · have summarized : next.summary enc = row.summary enc :=
        summary_congr rfl rfl command.payload command.id
      rw [summarized, command.id]
      exact inv.summary
    · rcases inv.output with ⟨_, absent, unplanned, unlisted, uncleaned⟩ | ⟨expired, _⟩ | ⟨_, found, _⟩
      · refine .untouched ?_ absent unplanned unlisted uncleaned
        exact reached.output.imp_right fun pending => ⟨pending, intact⟩
      · rw [none] at expired
        cases expired
      · have ticketed := (cleanupManifest_ok.mp found).1
        rw [none] at ticketed
        exact absurd ticketed (by decide)

theorem outputTransaction_keeps {allowed : Bool} (event : CommandEvent)
    (inv : CommandInv enc hash allowSimulated input row)
    (h : outputTransaction enc hash allowed row event = .ok row') :
    KeepsEvidence enc hash allowSimulated input row row' := by
  cases event with
  | execute event =>
    cases h
    exact ⟨inv, .refl row, fun expended => expended⟩
  | claimOutput lease now => exact claimOutput_keeps inv h
  | renewOutputClaim claim lease now => exact renewOutputClaim_keeps inv h
  | deferOutput claim delay now => exact deferOutput_keeps inv h
  | prepareOutput claim retention grace attempt projectDeleting now =>
    obtain ⟨_, prepared⟩ := map_fst_ok h
    exact prepareOutput_keeps inv prepared
  | saveOutputPlans claim plans projectDeleting now => exact saveOutputPlans_keeps inv h
  | publishOutput claim refs projectDeleting now => exact publishOutput_keeps inv h
  | enqueueExpiredOutput now => exact enqueueExpiredOutput_keeps inv h
  | claimOutputCleanup lease now => exact claimOutputCleanup_keeps inv h
  | prepareOutputCleanup claim now =>
    obtain ⟨_, prepared⟩ := map_fst_ok h
    exact prepareOutputCleanup_keeps inv prepared
  | completeOutputCleanup claim receipt now => exact completeOutputCleanup_keeps inv h
  | deferOutputCleanup claim delay now => exact deferOutputCleanup_keeps inv h
  | compactExpiredResponse request now =>
    obtain ⟨_, compacted⟩ := map_fst_ok h
    exact compactExpiredResponse_keeps inv compacted

theorem outputStep_keeps {allowed : Bool} (event : CommandEvent)
    (inv : CommandInv enc hash allowSimulated input row) :
    KeepsEvidence enc hash allowSimulated input row
      (commit row (outputTransaction enc hash allowed row event)) := by
  have still : KeepsEvidence enc hash allowSimulated input row row :=
    ⟨inv, .refl row, fun expended => expended⟩
  exact commit_keeps still fun _ h => outputTransaction_keeps event inv h

theorem commandStep_keeps (row : CommandRow) (event : CommandEvent)
    (inv : CommandInv enc hash allowSimulated input row) :
    CommandInv enc hash allowSimulated input (commandStep enc hash allowSimulated row event) ∧
      (row.op.status.Terminal → KeepsEvidence enc hash allowSimulated input row
        (commandStep enc hash allowSimulated row event)) := by
  cases event with
  | execute event => exact execute_keeps event inv
  | _ => exact ⟨(outputStep_keeps _ inv).inv, fun _ => outputStep_keeps _ inv⟩

theorem CommandInv.admitted {r : ExecuteCommand} {id : OperationId} {allocation : PinnedAllocation}
    {clock : ℕ} {row : ExecuteRow} (h : admitExecute enc r id allocation clock = some row) :
    CommandInv enc hash allowSimulated r.command (.admitted row) := by
  have outcome : Outcome enc allowSimulated row := admitExecute_outcome h
  obtain ⟨_, payload, none⟩ := admitExecute_row h
  have whole : (CommandRow.admitted row).original r.command = row := by
    unfold CommandRow.original CommandRow.admitted
    rw [if_pos none, ← payload, ← none]
  refine ⟨?_, ?_, fun _ => payload, fun erased => absurd rfl erased, .untouched (.inl none) rfl rfl rfl rfl⟩
  · rw [whole]
    exact outcome
  · have valid : row.op.payload.validate enc = .ok () := outcome.payload
    refine seq_ok.mpr ⟨mapError_ok.mpr valid, ?_⟩
    refine congrArg Except.ok ?_
    show _ = admittedSummary enc r.command row.op.id
    rw [← payload]
    rfl

/-- Every row of a command that any run reaches. -/
theorem CommandInv.reached {r : ExecuteCommand} {id : OperationId} {allocation : PinnedAllocation}
    {clock : ℕ} {row : ExecuteRow} (h : admitExecute enc r id allocation clock = some row)
    (events : List CommandEvent) : CommandInv enc hash allowSimulated r.command
      (run (commandStep enc hash allowSimulated) (.admitted row) events) :=
  run_invariant (fun row event inv => (commandStep_keeps row event inv).1) (.admitted h)

/-- A terminal row keeps its evidence in every run. -/
theorem CommandInv.retains (inv : CommandInv enc hash allowSimulated input row)
    (ended : row.op.status.Terminal) (events : List CommandEvent) :
    KeepsEvidence enc hash allowSimulated input row (run (commandStep enc hash allowSimulated) row events) := by
  induction events generalizing row with
  | nil => exact ⟨inv, .refl row, fun expended => expended⟩
  | cons event rest ih =>
    have first := (commandStep_keeps row event inv).2 ended
    have ended' : (commandStep enc hash allowSimulated row event).op.status.Terminal := by
      rw [first.same.status]
      exact ended
    have later := ih first.inv ended'
    exact ⟨later.inv, first.same.trans later.same, fun expended => later.expended (first.expended expended)⟩

/-! ### Weight -/

/-- Two rows that take the same part of an allocation's capacity. -/
structure SameWeight (enc : CommandEncoding) (row row' : CommandRow) : Prop where
  id : row'.op.id = row.op.id
  kind : row'.op.kind = row.op.kind
  pinned : row'.op.executionAllocationId = row.op.executionAllocationId
  summary : row'.summary enc = row.summary enc

theorem SameWeight.refl (row : CommandRow) : SameWeight enc row row := ⟨rfl, rfl, rfl, rfl⟩

theorem hasCapacity_congr {commands commands' : List CommandRow}
    (same : List.Forall₂ (SameWeight enc) commands commands') (allocation : AllocationId)
    (completedThrough : Option OperationId) (additionalOutput : Option ℕ) :
    hasCapacity enc commands' allocation completedThrough additionalOutput =
      hasCapacity enc commands allocation completedThrough additionalOutput := by
  have kept : List.Forall₂ (SameWeight enc)
      ((commands.filter fun row => row.Unforgotten allocation completedThrough).take (MAX_COMMANDS + 1))
      ((commands'.filter fun row => row.Unforgotten allocation completedThrough).take
        (MAX_COMMANDS + 1)) := by
    refine List.forall₂_take _ (List.rel_filter ?_ same)
    intro row row' weight
    show decide (row.Unforgotten allocation completedThrough) = true ↔
      decide (row'.Unforgotten allocation completedThrough) = true
    rw [decide_eq_true_iff, decide_eq_true_iff]
    unfold CommandRow.Unforgotten
    rw [weight.pinned, weight.kind, weight.id]
  have folded : ∀ {rows rows' : List CommandRow}, List.Forall₂ (SameWeight enc) rows rows' →
      ∀ reserved, rows'.foldlM (CommandRow.reserve enc) reserved =
        rows.foldlM (CommandRow.reserve enc) reserved := by
    intro rows rows' weights
    induction weights with
    | nil => exact fun reserved => rfl
    | cons weight rest ih =>
      intro reserved
      have first : CommandRow.reserve enc reserved _ = CommandRow.reserve enc reserved _ :=
        congrArg (fun summary => do
          let summary ← Except.mapError capacityError summary
          ensure (summary.outputLimit ≠ 0) DispatchError.invalidData
          okOr (checkedAdd 64 reserved summary.outputLimit) .invalidData) weight.summary
      rw [List.foldlM_cons, List.foldlM_cons, first]
      exact congrArg _ (funext ih)
  unfold hasCapacity
  simp only [kept.length_eq, folded kept]

theorem KeepsEvidence.weight (kept : KeepsEvidence enc hash allowSimulated input row row') :
    SameWeight enc row row' :=
  ⟨kept.same.id, kept.same.kind, kept.same.pinned, kept.same.summary⟩

theorem SameWeight.trans {row'' : CommandRow} (first : SameWeight enc row row')
    (second : SameWeight enc row' row'') : SameWeight enc row row'' :=
  ⟨second.id.trans first.id, second.kind.trans first.kind, second.pinned.trans first.pinned,
    second.summary.trans first.summary⟩

/-- No transaction changes what a command weighs, before or after its outcome. -/
theorem commandStep_weight (row : CommandRow) (event : CommandEvent)
    (inv : CommandInv enc hash allowSimulated input row) :
    SameWeight enc row (commandStep enc hash allowSimulated row event) := by
  cases event with
  | execute event =>
    have command : SameCommand row.toExecuteRow
        (executeStep enc row.toExecuteRow (event.under allowSimulated)) :=
      executeStep_same row.toExecuteRow event
    exact ⟨command.id, command.kind, command.pinned, summary_congr rfl rfl command.payload command.id⟩
  | _ => exact (outputStep_keeps _ inv).weight

theorem run_weight (inv : CommandInv enc hash allowSimulated input row) (events : List CommandEvent) :
    SameWeight enc row (run (commandStep enc hash allowSimulated) row events) := by
  induction events generalizing row with
  | nil => exact .refl row
  | cons event rest ih =>
    exact (commandStep_weight row event inv).trans (ih (commandStep_keeps row event inv).1)

end Reachable
end HudsonSandbox.Store
