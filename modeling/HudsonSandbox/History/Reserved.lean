import HudsonSandbox.History.Accepted
import HudsonSandbox.History.Released

/-!
# Reserved prefixes are never admitted into

Identities of an allocation are taken in order, above everything that retirement reserved. What is
reserved has ended and stays as it was found, until exactly that prefix is completed.
-/

namespace HudsonSandbox.History
open Checked GuestModel Command LiveOutput Store Uploads Supervisor SupervisorFiles Files FileSources
  Artifacts Prefixes Run

/-! ### Rows keep their identity and their end -/

section Commands
variable {enc : CommandEncoding} {hash : Output.OutputPlan → String} {allowSimulated : Bool}
  {row row' : CommandRow}

/-- Output, cleanup and compaction write none of the columns that all operations share. -/
theorem outputTransaction_operation {event : CommandEvent}
    (h : outputTransaction enc hash allowSimulated row event = .ok row') :
    row'.op.toOperation = row.op.toOperation := by
  cases event with
  | execute event =>
    cases h
    rfl
  | claimOutput lease now =>
    obtain ⟨_, h⟩ := seq_ok.mp h
    obtain ⟨_, h⟩ := seq_ok.mp h
    rw [← pure_ok.mp h]
  | renewOutputClaim claim lease now =>
    obtain ⟨_, h⟩ := seq_ok.mp h
    obtain ⟨_, h⟩ := seq_ok.mp h
    rw [← pure_ok.mp h]
  | deferOutput claim delay now =>
    obtain ⟨_, h⟩ := seq_ok.mp h
    obtain ⟨_, h⟩ := seq_ok.mp h
    rw [← pure_ok.mp h]
  | prepareOutput claim retention grace attempt projectDeleting now =>
    obtain ⟨_, h⟩ := map_fst_ok h
    unfold prepareOutput at h
    iterate 6 obtain ⟨_, _, h⟩ := bind_ok.mp h
    dsimp only at h
    split at h <;> cases pure_ok.mp h <;> rfl
  | saveOutputPlans claim plans projectDeleting now =>
    obtain ⟨_, _, h⟩ := bind_ok.mp h
    iterate 3 obtain ⟨_, _, h⟩ := bind_ok.mp h
    rw [← pure_ok.mp h]
  | publishOutput claim refs projectDeleting now =>
    obtain ⟨_, _, h⟩ := bind_ok.mp h
    iterate 4 obtain ⟨_, _, h⟩ := bind_ok.mp h
    rw [← pure_ok.mp h]
  | enqueueExpiredOutput now =>
    obtain ⟨_, h⟩ := seq_ok.mp h
    rw [← pure_ok.mp h]
  | claimOutputCleanup lease now =>
    iterate 3 obtain ⟨_, _, h⟩ := bind_ok.mp h
    rw [← pure_ok.mp h]
  | prepareOutputCleanup claim now =>
    obtain ⟨_, h⟩ := map_fst_ok h
    unfold prepareOutputCleanup at h
    iterate 5 obtain ⟨_, _, h⟩ := bind_ok.mp h
    cases pure_ok.mp h
    rfl
  | completeOutputCleanup claim receipt now =>
    unfold outputTransaction completeOutputCleanup at h
    iterate 7 obtain ⟨_, _, h⟩ := bind_ok.mp h
    split at h
    · obtain ⟨_, h⟩ := seq_ok.mp h
      rw [← pure_ok.mp h]
    · obtain ⟨_, h⟩ := seq_ok.mp h
      rw [← pure_ok.mp h]
  | deferOutputCleanup claim delay now =>
    iterate 2 obtain ⟨_, _, h⟩ := bind_ok.mp h
    rw [← pure_ok.mp h]
  | compactExpiredResponse request now =>
    obtain ⟨_, h⟩ := map_fst_ok h
    unfold compactExpiredResponse at h
    split at h
    · cases h
      rfl
    split at h <;> cases h <;> rfl

theorem commandStep_operation (row : CommandRow) (event : CommandEvent) :
    (commandStep enc hash allowSimulated row event).op.id = row.op.id ∧
      (row.op.status.Terminal →
        (commandStep enc hash allowSimulated row event).op.toOperation = row.op.toOperation) := by
  have kept (event : CommandEvent) :
      (commit row (outputTransaction enc hash allowSimulated row event)).op.toOperation = row.op.toOperation :=
    commit_keeps (P := fun next : CommandRow => next.op.toOperation = row.op.toOperation) rfl
      fun next h => outputTransaction_operation h
  cases event with
  | execute event =>
    obtain ⟨allocation, moves⟩ := @executeStep_moves enc allowSimulated row.toExecuteRow event
    refine ⟨(moves.same allocation).id, fun ended => ?_⟩
    obtain ⟨expires, same⟩ := moves.terminal ended
    show (executeStep enc row.toExecuteRow (event.under allowSimulated)).op.toOperation = _
    rw [same]
  | claimOutput | renewOutputClaim | deferOutput | prepareOutput | saveOutputPlans | publishOutput
  | enqueueExpiredOutput | claimOutputCleanup | prepareOutputCleanup | completeOutputCleanup
  | deferOutputCleanup | compactExpiredResponse =>
    exact ⟨congrArg Operation.id (kept _), fun _ => kept _⟩

end Commands

section Uploads
variable {enc : Encoding} {request : SandboxId → UploadInput → BitVec 256} {file : FileEncoding}
  {allowSimulated : Bool}

theorem FileRow.next_progress (row : FileRow) (next : Progress) (event : UploadEvent) :
    (row.next next event).toProgress = next := by
  cases event with
  | prepareUpload claim host epoch first authority now =>
    unfold FileRow.next
    dsimp only
    split
    · rfl
    split <;> rfl
  | observeUpload claim o written allowSimulated now =>
    unfold FileRow.next
    dsimp only
    split
    · rfl
    unfold FileRow.observed
    dsimp only
    split
    · rfl
    split <;> rfl
  | claimUpload | claimFileSourceCleanup | completeFileSourceCleanup | deferFileSourceCleanup
  | renewUpload | deferUpload | acceptUploadSource | uploadUnknown | confirmUploadWrite => rfl

theorem fileStep_id (row : FileRow) (event : FileEvent) :
    (fileStep enc request file allowSimulated row event).op.id = row.op.id := by
  refine commit_keeps (P := fun next : FileRow => next.op.id = row.op.id) rfl fun next h => ?_
  cases event with
  | upload event =>
    obtain ⟨progress, moved, same⟩ := bind_ok.mp h
    rw [← pure_ok.mp same, FileRow.next_progress]
    exact (transact_advances moved).id
  | assignRetention period =>
    obtain ⟨_, h⟩ := seq_ok.mp h
    obtain ⟨_, _, same⟩ := bind_ok.mp h
    rw [← pure_ok.mp same]

end Uploads

/-! ### Scans -/

namespace AllocationRows
variable {enc : Encodings} {s s' : AllocationRows} {domain : Domain} {allowSimulated : Bool}

/-- The operations up to the last one of an extension were all accepted. -/
theorem extend_ok {rows : List Entry} {guest found : Option GuestModel.Context} {through : OperationId}
    (h : extend rows guest = .ok (some through, found)) :
    ∃ taken rest, rows = taken ++ rest ∧ (∃ e ∈ taken, e.id = through) ∧
      ∀ e ∈ taken, ∃ context, e.found = .ok (some context) := by
  induction rows generalizing guest through with
  | nil => cases h
  | cons e rest ih =>
    unfold extend at h
    obtain ⟨context, accepted, h⟩ := bind_ok.mp h
    cases context with
    | none => cases h
    | some context =>
      obtain ⟨_, h⟩ := seq_ok.mp h
      obtain ⟨⟨next, known⟩, extended, h⟩ := bind_ok.mp h
      cases next with
      | none =>
        cases pure_ok.mp h
        refine ⟨[e], rest, rfl, ⟨e, .head _, rfl⟩, ?_⟩
        intro other own
        rw [List.mem_singleton.mp own]
        exact ⟨context, accepted⟩
      | some next =>
        cases pure_ok.mp h
        obtain ⟨taken, after, rfl, ⟨last, own, same⟩, all⟩ := ih extended
        refine ⟨e :: taken, after, rfl, ⟨last, .tail _ own, same⟩, ?_⟩
        intro other found
        rcases List.mem_cons.mp found with rfl | found
        · exact ⟨context, accepted⟩
        · exact all other found

/-- The operations that a scan without an upper bound finds, in the order of their identities. -/
theorem select_sorted {entries : List Entry} {after : Option OperationId} {limit : ℕ}
    (sorted : (entries.map Entry.id).Pairwise (· < ·)) :
    select entries after none limit = (entries.filter fun e => Above after e.id).take limit := by
  have unbounded : (fun e : Entry => decide (Above after e.id ∧ ∀ t ∈ (none : Option OperationId), e.id ≤ t)) =
      fun e => decide (Above after e.id) := by
    funext e
    exact decide_eq_decide.mpr ⟨And.left, fun above => ⟨above, fun t missing => by cases missing⟩⟩
  unfold select
  rw [List.mergeSort_of_pairwise, unbounded]
  refine ((List.pairwise_map.mp sorted).filter _).imp fun lower => ?_
  exact decide_eq_true lower.le

/-- What an extension reserves is above the floor, and all of it was accepted. -/
theorem extend_reserves {entries : List Entry} {after : Option OperationId} {limit : ℕ}
    {guest found : Option GuestModel.Context} {through : OperationId}
    (sorted : (entries.map Entry.id).Pairwise (· < ·))
    (h : extend (select entries after none limit) guest = .ok (some through, found)) :
    Above after through ∧ ∀ e ∈ entries, Above after e.id → e.id ≤ through →
      ∃ context, e.found = .ok (some context) := by
  obtain ⟨taken, rest, split, ⟨last, own, same⟩, accepted⟩ := extend_ok h
  rw [select_sorted sorted] at split
  have ordered := (List.pairwise_map.mp sorted).filter fun e => decide (Above after e.id)
  have mem (e : Entry) : e ∈ entries.filter (fun e => decide (Above after e.id)) ↔
      e ∈ entries ∧ Above after e.id := by
    rw [List.mem_filter, decide_eq_true_iff]
  generalize entries.filter (fun e => decide (Above after e.id)) = rows at split ordered mem
  rw [← List.take_append_drop limit rows, split, List.append_assoc] at ordered mem
  refine ⟨?_, fun e found above below => ?_⟩
  · rw [← same]
    exact ((mem last).mp (List.mem_append_left _ own)).2
  · rcases List.mem_append.mp ((mem e).mpr ⟨found, above⟩) with inside | outside
    · exact accepted e inside
    · -- what the extension left over is above its last operation
      have higher := (List.pairwise_append.mp ordered).2.2 last own e outside
      rw [same] at higher
      exact absurd below (not_le.mpr higher)

/-! ### What every state keeps -/

/-- The operations of a domain, as far as their columns are common to both. -/
def operations (s : AllocationRows) : Domain → List Operation
  | .commands => s.commands.map fun row => row.op.toOperation
  | .files => s.uploads.map fun row => row.op.toOperation

def ids (s : AllocationRows) (domain : Domain) : List OperationId := (s.operations domain).map Operation.id

/-- Every operation up to an identity ended, and no source of an upload is left. -/
def Settled (s : AllocationRows) (domain : Domain) (through : OperationId) : Prop :=
  match domain with
  | .commands => ∀ row ∈ s.commands, row.op.id ≤ through → Ended row.op.toOperation
  | .files => ∀ row ∈ s.uploads, row.op.id ≤ through →
      Ended row.op.toOperation ∧ row.file.sourceRetiredAt ≠ none

structure Reserves (s : AllocationRows) (domain : Domain) (r : Reservation OperationId) : Prop where
  lawful : r.Lawful
  settled : s.Settled domain r.reservedThrough

structure RowsInv (s : AllocationRows) : Prop where
  sorted : ∀ d, (s.ids d).Pairwise (· < ·)
  below : ∀ d, ∀ id ∈ s.ids d, ∃ last ∈ s.lastAdmitted, id ≤ last
  live : ∀ d, ∀ h ∈ s.live d, s.Reserves d h.toReservation
  released : ∀ d, ∀ h ∈ s.released d, s.Reserves d h.toReservation

/-- Reservations only move on, and operations only join above all of them. -/
structure Onward (s s' : AllocationRows) : Prop where
  live : ∀ d, ∀ h ∈ s.live d, ∃ h' ∈ s'.live d, Reservation.Later h.toReservation h'.toReservation
  released : ∀ d, ∀ h ∈ s.released d, ∃ h' ∈ s'.released d,
    Reservation.Later h.toReservation h'.toReservation
  grows : ∀ d, ∃ new, s'.ids d = s.ids d ++ new ∧ ∀ id ∈ new, ∀ r ∈ s.reserved, r < id

theorem Settled.ended {through : OperationId} (settled : s.Settled domain through) :
    ∀ op ∈ s.operations domain, op.id ≤ through → Ended op := by
  intro op found below
  cases domain with
  | commands =>
    obtain ⟨row, held, rfl⟩ := List.mem_map.mp found
    exact settled row held below
  | files =>
    obtain ⟨row, held, rfl⟩ := List.mem_map.mp found
    exact (settled row held below).1

theorem entries_id : (s.entries enc domain allowSimulated).map Entry.id = s.ids domain := by
  cases domain <;> simp [entries, ids, operations, Function.comp_def]

theorem mem_reserved {r : OperationId} :
    r ∈ s.reserved ↔ ∃ d, (∃ h ∈ s.live d, h.reservedThrough = r) ∨ ∃ h ∈ s.released d, h.reservedThrough = r := by
  unfold reserved
  constructor
  · intro found
    rcases List.mem_append.mp found with found | found
    · obtain ⟨d, _, found⟩ := List.mem_filterMap.mp found
      obtain ⟨h, held, same⟩ := Option.map_eq_some_iff.mp found
      exact ⟨d, .inl ⟨h, held, same⟩⟩
    · obtain ⟨d, _, found⟩ := List.mem_filterMap.mp found
      obtain ⟨h, held, same⟩ := Option.map_eq_some_iff.mp found
      exact ⟨d, .inr ⟨h, held, same⟩⟩
  · have all : ∀ d : Domain, d ∈ [Domain.commands, .files] := by
      intro d
      cases d <;> decide
    rintro ⟨d, ⟨h, held, same⟩ | ⟨h, held, same⟩⟩
    · exact List.mem_append_left _
        (List.mem_filterMap.mpr ⟨d, all d, Option.map_eq_some_iff.mpr ⟨h, held, same⟩⟩)
    · exact List.mem_append_right _
        (List.mem_filterMap.mpr ⟨d, all d, Option.map_eq_some_iff.mpr ⟨h, held, same⟩⟩)

theorem Onward.refl (s : AllocationRows) : s.Onward s := by
  refine ⟨fun d h held => ⟨h, held, .refl _⟩, fun d h held => ⟨h, held, .refl _⟩, fun d => ⟨[], ?_, ?_⟩⟩
  · rw [List.append_nil]
  · intro id found
    cases found

theorem Onward.reserved (onward : s.Onward s') : ∀ r ∈ s.reserved, ∃ r' ∈ s'.reserved, r ≤ r' := by
  intro r found
  obtain ⟨d, ⟨h, held, rfl⟩ | ⟨h, held, rfl⟩⟩ := mem_reserved.mp found
  · obtain ⟨h', held', later⟩ := onward.live d h held
    exact ⟨_, mem_reserved.mpr ⟨d, .inl ⟨h', held', rfl⟩⟩, later.reserved⟩
  · obtain ⟨h', held', later⟩ := onward.released d h held
    exact ⟨_, mem_reserved.mpr ⟨d, .inr ⟨h', held', rfl⟩⟩, later.reserved⟩

theorem Onward.trans {s'' : AllocationRows} (first : s.Onward s') (second : s'.Onward s'') :
    s.Onward s'' := by
  refine ⟨fun d h held => ?_, fun d h held => ?_, fun d => ?_⟩
  · obtain ⟨h', held', later⟩ := first.live d h held
    obtain ⟨h'', held'', again⟩ := second.live d h' held'
    exact ⟨h'', held'', later.trans again⟩
  · obtain ⟨h', held', later⟩ := first.released d h held
    obtain ⟨h'', held'', again⟩ := second.released d h' held'
    exact ⟨h'', held'', later.trans again⟩
  · obtain ⟨new, grown, above⟩ := first.grows d
    obtain ⟨more, grown', above'⟩ := second.grows d
    refine ⟨new ++ more, ?_, fun id found r held => ?_⟩
    · rw [grown', grown, List.append_assoc]
    · rcases List.mem_append.mp found with found | found
      · exact above id found r held
      · obtain ⟨r', held', le⟩ := first.reserved r held
        exact le.trans_lt (above' id found r' held')

/-- The step kept the invariant, and everything moved on. -/
structure Steps (s s' : AllocationRows) : Prop where
  inv : s'.RowsInv
  onward : s.Onward s'

theorem Steps.still (inv : s.RowsInv) : s.Steps s := ⟨inv, .refl s⟩

/-- A transaction on the operations leaves the reservations alone. -/
theorem Steps.of_rows (inv : s.RowsInv) (live : s'.live = s.live) (released : s'.released = s.released)
    (sorted : ∀ d, (s'.ids d).Pairwise (· < ·))
    (below : ∀ d, ∀ id ∈ s'.ids d, ∃ last ∈ s'.lastAdmitted, id ≤ last)
    (grows : ∀ d, ∃ new, s'.ids d = s.ids d ++ new ∧ ∀ id ∈ new, ∀ r ∈ s.reserved, r < id)
    (settles : ∀ d, ∀ r ∈ s.reserved, s.Settled d r → s'.Settled d r) : s.Steps s' := by
  refine ⟨⟨sorted, below, fun d h held => ?_, fun d h held => ?_⟩, ⟨fun d h held => ?_, fun d h held => ?_, grows⟩⟩
  · rw [live] at held
    obtain ⟨lawful, settled⟩ := inv.live d h held
    exact ⟨lawful, settles d _ (mem_reserved.mpr ⟨d, .inl ⟨h, held, rfl⟩⟩) settled⟩
  · rw [released] at held
    obtain ⟨lawful, settled⟩ := inv.released d h held
    exact ⟨lawful, settles d _ (mem_reserved.mpr ⟨d, .inr ⟨h, held, rfl⟩⟩) settled⟩
  · rw [live]
    exact ⟨h, held, .refl _⟩
  · rw [released]
    exact ⟨h, held, .refl _⟩

/-! ### Work on admitted operations -/

theorem updateCommand_ids (id : OperationId) (event : CommandEvent) :
    (s.updateCommand enc id allowSimulated event).ids domain = s.ids domain := by
  cases domain with
  | files => rfl
  | commands =>
    unfold updateCommand ids operations
    simp only [List.map_map]
    refine List.map_congr_left fun row _ => ?_
    show (if row.op.id = id then _ else row).op.id = row.op.id
    split
    · exact (commandStep_operation row event).1
    · rfl

theorem updateCommand_settled {id through : OperationId} {event : CommandEvent}
    (settled : s.Settled domain through) :
    (s.updateCommand enc id allowSimulated event).Settled domain through := by
  cases domain with
  | files => exact settled
  | commands =>
    intro row' found below
    obtain ⟨row, held, rfl⟩ := List.mem_map.mp found
    split at below
    next own =>
      obtain ⟨same, terminal⟩ := @commandStep_operation enc.commands enc.hash allowSimulated row event
      rw [same] at below
      have ended := settled row held below
      rw [if_pos own, terminal ended.1]
      exact ended
    next other =>
      rw [if_neg other]
      exact settled row held below

theorem updateUpload_ids (id : OperationId) (event : FileEvent) :
    (s.updateUpload enc id allowSimulated event).ids domain = s.ids domain := by
  cases domain with
  | commands => rfl
  | files =>
    unfold updateUpload ids operations
    simp only [List.map_map]
    refine List.map_congr_left fun row _ => ?_
    show (if row.op.id = id then _ else row).op.id = row.op.id
    split
    · exact fileStep_id row event
    · rfl

theorem updateUpload_settled {id through : OperationId} {event : FileEvent}
    (settled : s.Settled domain through) :
    (s.updateUpload enc id allowSimulated event).Settled domain through := by
  cases domain with
  | commands => exact settled
  | files =>
    intro row' found below
    obtain ⟨row, held, rfl⟩ := List.mem_map.mp found
    split at below
    next own =>
      rw [fileStep_id] at below
      obtain ⟨ended, retired⟩ := settled row held below
      obtain ⟨expires, same⟩ := fileStep_retired event ended.1 retired
      rw [if_pos own, same]
      exact ⟨ended, retired⟩
    next other =>
      rw [if_neg other]
      exact settled row held below

/-- A transaction on admitted operations admits none and takes no end back. -/
theorem Steps.of_update (inv : s.RowsInv) (live : s'.live = s.live) (released : s'.released = s.released)
    (last : s'.lastAdmitted = s.lastAdmitted) (same : ∀ d, s'.ids d = s.ids d)
    (settles : ∀ d, ∀ r ∈ s.reserved, s.Settled d r → s'.Settled d r) : s.Steps s' := by
  refine .of_rows inv live released (fun d => ?_) (fun d => ?_) (fun d => ⟨[], ?_, ?_⟩) settles
  · rw [same]
    exact inv.sorted d
  · rw [same, last]
    exact inv.below d
  · rw [same, List.append_nil]
  · intro id found
    cases found

/-! ### Admission -/

theorem floor_above {rows : List OperationId} (last : Option OperationId) :
    (∀ r ∈ last, ∃ f ∈ rows.foldl raise last, r ≤ f) ∧ ∀ r ∈ rows, ∃ f ∈ rows.foldl raise last, r ≤ f := by
  induction rows generalizing last with
  | nil =>
    refine ⟨fun r found => ⟨r, found, le_rfl⟩, fun r found => ?_⟩
    cases found
  | cons first rest ih =>
    obtain ⟨start, later⟩ := ih (raise last first)
    have raised : ∀ r ∈ last, ∃ f ∈ raise last first, r ≤ f := by
      intro r found
      rw [found]
      exact ⟨_, rfl, le_max_left r first⟩
    have joined : ∃ f ∈ raise last first, first ≤ f := by
      cases last with
      | none => exact ⟨first, rfl, le_rfl⟩
      | some r => exact ⟨_, rfl, le_max_right r first⟩
    have through {r : OperationId} (known : ∃ f ∈ raise last first, r ≤ f) :
        ∃ f ∈ rest.foldl raise (raise last first), r ≤ f := by
      obtain ⟨f, found, le⟩ := known
      obtain ⟨g, found, le'⟩ := start f found
      exact ⟨g, found, le.trans le'⟩
    refine ⟨fun r found => through (raised r found), fun r found => ?_⟩
    rcases List.mem_cons.mp found with rfl | found
    · exact through joined
    · exact later r found

/-- A new identity lies above every earlier one and above every reservation. -/
theorem nextOperation_ok {candidate id : OperationId} (h : s.nextOperation candidate = .ok (s', id)) :
    s' = { s with lastAdmitted := some id } ∧ Above s.lastAdmitted id ∧ ∀ r ∈ s.reserved, r < id := by
  unfold nextOperation at h
  obtain ⟨_, h⟩ := seq_ok.mp h
  obtain ⟨next, advanced, h⟩ := bind_ok.mp h
  cases pure_ok.mp h
  have above := advanceOperationId_above (mapError_ok.mp advanced)
  obtain ⟨last, rows⟩ := @floor_above s.reserved s.lastAdmitted
  refine ⟨rfl, fun r found => ?_, fun r found => ?_⟩
  · obtain ⟨f, held, le⟩ := last r found
    exact le.trans_lt (above f held)
  · obtain ⟨f, held, le⟩ := rows r found
    exact le.trans_lt (above f held)

/-- One operation joins a domain under a new identity. -/
structure Admits (s s' : AllocationRows) (id : OperationId) : Prop where
  above : Above s.lastAdmitted id
  free : ∀ r ∈ s.reserved, r < id
  last : s'.lastAdmitted = some id
  live : s'.live = s.live
  released : s'.released = s.released
  joins : ∃ d, s'.ids d = s.ids d ++ [id] ∧ ∀ other, other ≠ d → s'.ids other = s.ids other
  settles : ∀ d, ∀ r ∈ s.reserved, s.Settled d r → s'.Settled d r

theorem admitExecute_admits {r : ExecuteCommand} {candidate id : OperationId} {ready : Bool} {now : ℕ}
    (h : s.admitExecute enc r candidate ready now = .ok (s', id)) : s.Admits s' id := by
  unfold admitExecute at h
  obtain ⟨_, h⟩ := seq_ok.mp h
  obtain ⟨_, h⟩ := seq_ok.mp h
  obtain ⟨_, _, h⟩ := bind_ok.mp h
  obtain ⟨_, h⟩ := seq_ok.mp h
  obtain ⟨⟨raised, next⟩, taken, h⟩ := bind_ok.mp h
  obtain ⟨row, made, h⟩ := bind_ok.mp h
  cases pure_ok.mp h
  obtain ⟨rfl, above, free⟩ := nextOperation_ok taken
  have own : row.op.id = id := (admitExecute_row (okOr_ok.mp made)).1
  refine ⟨above, free, rfl, rfl, rfl, ⟨.commands, ?_, fun other different => ?_⟩, fun d through reserved settled => ?_⟩
  · simp only [ids, operations, List.map_append, List.map_cons, List.map_nil, CommandRow.admitted, own]
  · cases other with
    | commands => exact absurd rfl different
    | files => rfl
  · cases d with
    | files => exact settled
    | commands =>
      intro row' found below
      rcases List.mem_append.mp found with found | found
      · exact settled row' found below
      · rw [List.mem_singleton.mp found] at below
        have below : row.op.id ≤ through := below
        rw [own] at below
        exact absurd below (not_le.mpr (free through reserved))

theorem admitUpload_admits {r : UploadCommand} {candidate attempt id : OperationId} {ready : Bool}
    {now : Time} {expiresAt : Option Time}
    (h : s.admitUpload enc r candidate attempt ready now expiresAt = .ok (s', id)) : s.Admits s' id := by
  unfold admitUpload at h
  obtain ⟨_, h⟩ := seq_ok.mp h
  obtain ⟨_, h⟩ := seq_ok.mp h
  dsimp only at h
  obtain ⟨_, h⟩ := seq_ok.mp h
  obtain ⟨⟨raised, next⟩, taken, h⟩ := bind_ok.mp h
  obtain ⟨row, made, h⟩ := bind_ok.mp h
  obtain ⟨_, h⟩ := seq_ok.mp h
  cases pure_ok.mp h
  obtain ⟨rfl, above, free⟩ := nextOperation_ok taken
  have own : row.op.id = next := by
    unfold Store.admitUpload at made
    obtain ⟨_, made⟩ := seq_ok.mp made
    obtain ⟨_, made⟩ := seq_ok.mp made
    dsimp only at made
    obtain ⟨_, made⟩ := seq_ok.mp made
    obtain ⟨_, made⟩ := seq_ok.mp made
    rw [← pure_ok.mp made]
    rfl
  refine ⟨above, free, rfl, rfl, rfl, ⟨.files, ?_, fun other different => ?_⟩, fun d through reserved settled => ?_⟩
  · simp only [ids, operations, List.map_append, List.map_cons, List.map_nil, FileRow.admitted,
      Progress.admitted, own]
  · cases other with
    | files => exact absurd rfl different
    | commands => rfl
  · cases d with
    | commands => exact settled
    | files =>
      intro row' found below
      rcases List.mem_append.mp found with found | found
      · exact settled row' found below
      · rw [List.mem_singleton.mp found] at below
        have below : row.op.id ≤ through := below
        rw [own] at below
        exact absurd below (not_le.mpr (free through reserved))

theorem Admits.steps {id : OperationId} (inv : s.RowsInv) (admits : s.Admits s' id) : s.Steps s' := by
  obtain ⟨joined, own, others⟩ := admits.joins
  have either (d : Domain) : s'.ids d = s.ids d ++ [id] ∨ s'.ids d = s.ids d := by
    by_cases same : d = joined
    · rw [same]
      exact .inl own
    · exact .inr (others d same)
  have lower (d : Domain) : ∀ known ∈ s.ids d, known < id := by
    intro known found
    obtain ⟨last, held, le⟩ := inv.below d known found
    exact le.trans_lt (admits.above last held)
  refine .of_rows inv admits.live admits.released (fun d => ?_) (fun d known found => ?_) (fun d => ?_)
    admits.settles
  · rcases either d with grown | same
    · rw [grown]
      refine List.pairwise_append.mpr ⟨inv.sorted d, List.pairwise_singleton _ _, fun known found a own => ?_⟩
      rw [List.mem_singleton.mp own]
      exact lower d known found
    · rw [same]
      exact inv.sorted d
  · refine ⟨id, admits.last, ?_⟩
    rcases either d with grown | same
    · rw [grown] at found
      rcases List.mem_append.mp found with found | own
      · exact (lower d known found).le
      · exact (List.mem_singleton.mp own).le
    · rw [same] at found
      exact (lower d known found).le
  · rcases either d with grown | same
    · refine ⟨[id], grown, fun a own => ?_⟩
      rw [List.mem_singleton.mp own]
      exact admits.free
    · refine ⟨[], ?_, fun a none => ?_⟩
      · rw [same, List.append_nil]
      · cases none

/-! ### The live history -/

theorem setLive_own (h : HistoryRow) : (s.setLive domain h).live domain = some h := by
  simp [setLive]

theorem setLive_other {d : Domain} (h : HistoryRow) (other : d ≠ domain) :
    (s.setLive domain h).live d = s.live d := by
  simp [setLive, other]

/-- The live row of a domain moved on. -/
theorem Steps.live {h' : HistoryRow} (inv : s.RowsInv)
    (moves : ∀ h ∈ s.live domain, Reservation.Moves h.toReservation h'.toReservation)
    (reserves : s.Reserves domain h'.toReservation) : s.Steps (s.setLive domain h') := by
  refine ⟨⟨inv.sorted, inv.below, fun d h held => ?_, fun d h held => ?_⟩, ⟨fun d h held => ?_,
    fun d h held => ⟨h, held, .refl _⟩, fun d => ⟨[], (List.append_nil _).symm, fun id none => ?_⟩⟩⟩
  · by_cases own : d = domain
    · rw [own, setLive_own] at held
      cases held
      rw [own]
      exact ⟨reserves.lawful, reserves.settled⟩
    · rw [setLive_other h' own] at held
      obtain ⟨lawful, settled⟩ := inv.live d h held
      exact ⟨lawful, settled⟩
  · obtain ⟨lawful, settled⟩ := inv.released d h held
    exact ⟨lawful, settled⟩
  · by_cases own : d = domain
    · rw [own] at held ⊢
      exact ⟨h', setLive_own h', (moves h held).later (inv.live domain h held).lawful⟩
    · rw [setLive_other h' own]
      exact ⟨h, held, .refl _⟩
  · cases none

/-- The bookkeeping of a claim leaves the reservation alone. -/
theorem Steps.live_kept {h h' : HistoryRow} (inv : s.RowsInv) (held : s.live domain = some h)
    (same : h'.toReservation = h.toReservation) : s.Steps (s.setLive domain h') := by
  refine .live inv (fun again found => ?_) ?_
  · rw [held] at found
    cases found
    exact .kept same
  · rw [same]
    exact inv.live domain h held

/-- An extension above a floor that is settled is settled as a whole. -/
theorem extend_settled {after : Option OperationId} {limit : ℕ} {guest found : Option GuestModel.Context}
    {through : OperationId} (inv : s.RowsInv) (settled : ∀ f ∈ after, s.Settled domain f)
    (h : extend (select (s.entries enc domain allowSimulated) after none limit) guest =
      .ok (some through, found)) : Above after through ∧ s.Settled domain through := by
  have sorted := inv.sorted domain
  rw [← @entries_id enc s domain allowSimulated] at sorted
  obtain ⟨above, accepted⟩ := extend_reserves sorted h
  refine ⟨above, ?_⟩
  cases domain with
  | commands =>
    intro row held below
    by_cases new : Above after row.op.id
    · obtain ⟨context, ended⟩ := accepted _ (List.mem_map.mpr ⟨row, held, rfl⟩) new below
      exact eligibleCommand_done ended
    · simp only [Above, not_forall, not_lt] at new
      obtain ⟨f, found, below⟩ := new
      exact settled f found row held below
  | files =>
    intro row held below
    by_cases new : Above after row.op.id
    · obtain ⟨context, ended⟩ := accepted _ (List.mem_map.mpr ⟨row, held, rfl⟩) new below
      exact eligibleFile_ended ended
    · simp only [Above, not_forall, not_lt] at new
      obtain ⟨f, found, below⟩ := new
      exact settled f found row held below

theorem reservePrefix_moves {h' : HistoryRow} (inv : s.RowsInv)
    (h : s.reservePrefix enc domain allowSimulated = .ok (some h')) :
    (∀ h ∈ s.live domain, Reservation.Moves h.toReservation h'.toReservation) ∧
      s.Reserves domain h'.toReservation := by
  unfold reservePrefix at h
  split at h
  next absent =>
    obtain ⟨⟨through, guest⟩, extended, h⟩ := bind_ok.mp h
    obtain ⟨t, rfl, same⟩ := Option.map_eq_some_iff.mp (pure_ok.mp h)
    obtain ⟨_, settled⟩ := extend_settled inv (fun f missing => by cases missing) extended
    rw [← same]
    refine ⟨fun h held => ?_, ⟨fun c completed => ?_, settled⟩⟩
    · rw [absent] at held
      cases held
    · cases completed
  next known held =>
    obtain ⟨_, h⟩ := seq_ok.mp h
    have own := inv.live domain known held
    split at h
    next waits =>
      cases pure_ok.mp h
      refine ⟨fun again found => ?_, own⟩
      rw [held] at found
      cases found
      exact .kept rfl
    next finished =>
      obtain ⟨⟨through, guest⟩, extended, h⟩ := bind_ok.mp h
      obtain ⟨t, rfl, same⟩ := Option.map_eq_some_iff.mp (pure_ok.mp h)
      have completed : known.completedThrough = some known.reservedThrough := not_not.mp finished
      obtain ⟨above, settled⟩ := extend_settled inv (fun f found => by
        rw [completed] at found
        cases found
        exact own.settled) extended
      have higher : known.reservedThrough < t := above _ completed
      rw [← same]
      refine ⟨fun again found => ?_, ⟨fun c found => ?_, settled⟩⟩
      · rw [held] at found
        cases found
        exact .enlarges finished higher rfl
      · rw [completed] at found
        cases found
        exact higher.le

theorem claimReserved_reservation {h h' : HistoryRow} {lease : ℤ} {now : Time} {preparation : Preparation}
    (made : s.claimReserved enc h domain lease allowSimulated now = .ok (h', preparation)) :
    h'.toReservation = h.toReservation := by
  unfold claimReserved at made
  dsimp only at made
  split at made
  · cases pure_ok.mp made
    rfl
  · obtain ⟨_, made⟩ := seq_ok.mp made
    obtain ⟨_, _, made⟩ := bind_ok.mp made
    obtain ⟨_, made⟩ := seq_ok.mp made
    cases pure_ok.mp made
    rfl

theorem prepareCandidate_steps {h' : HistoryRow} {lease : ℤ} {now : Time} {preparation : Preparation}
    (inv : s.RowsInv)
    (made : s.prepareCandidate enc domain lease allowSimulated now = .ok (some (h', preparation))) :
    s.Steps (s.setLive domain h') := by
  unfold prepareCandidate at made
  obtain ⟨candidate, reserved, made⟩ := bind_ok.mp made
  cases candidate with
  | none => cases pure_ok.mp made
  | some h =>
    obtain ⟨⟨claimed, taken⟩, claiming, made⟩ := bind_ok.mp made
    cases pure_ok.mp made
    have same := claimReserved_reservation claiming
    obtain ⟨moves, reserves⟩ := reservePrefix_moves inv reserved
    rw [← same] at moves reserves
    exact .live inv moves reserves

theorem claimHistory_steps {host : HostId} {epoch lease : ℤ} {now : Time} {answer : Option Preparation}
    (inv : s.RowsInv)
    (h : s.claimHistory enc host epoch domain lease allowSimulated now = .ok (s', answer)) : s.Steps s' := by
  unfold claimHistory at h
  obtain ⟨_, h⟩ := seq_ok.mp h
  split at h
  · cases pure_ok.mp h
    exact .still inv
  split at h
  next made =>
    cases pure_ok.mp h
    exact prepareCandidate_steps inv made
  next =>
    cases pure_ok.mp h
    exact .still inv
  next =>
    cases pure_ok.mp h
    unfold retryLive
    split
    · exact .still inv
    next held => exact .live_kept inv held rfl
  next => cases h

theorem lock_ok {claim : Claim} {now : Time} {h : HistoryRow} (locked : s.lock claim now = .ok h) :
    s.live claim.domain = some h := by
  unfold lock at locked
  obtain ⟨_, locked⟩ := seq_ok.mp locked
  obtain ⟨_, locked⟩ := seq_ok.mp locked
  obtain ⟨found, held, locked⟩ := bind_ok.mp locked
  obtain ⟨_, locked⟩ := seq_ok.mp locked
  rw [← pure_ok.mp locked]
  exact okOr_ok.mp held

theorem bindHistory_steps {claim : Claim} {observation : HistoryBindingObservation} {now : Time}
    {request : HistoryRequest} (inv : s.RowsInv)
    (h : s.bindHistory enc claim observation allowSimulated now = .ok (s', request)) : s.Steps s' := by
  unfold bindHistory at h
  obtain ⟨row, locked, h⟩ := bind_ok.mp h
  iterate 6 obtain ⟨_, _, h⟩ := bind_ok.mp h
  cases pure_ok.mp h
  exact .live_kept inv (lock_ok locked) rfl

/-- A completion is exactly of what was reserved. -/
theorem completeHistory_steps {claim : Claim} {observation : HistoryObservation} {now : Time}
    (inv : s.RowsInv) (h : s.completeHistory enc claim observation allowSimulated now = .ok s') :
    s.Steps s' := by
  unfold completeHistory at h
  obtain ⟨row, locked, h⟩ := bind_ok.mp h
  iterate 5 obtain ⟨_, _, h⟩ := bind_ok.mp h
  have held := lock_ok locked
  have own := inv.live claim.domain row held
  rw [← pure_ok.mp h]
  refine .live inv (fun again found => ?_) ⟨fun c completed => ?_, own.settled⟩
  · rw [held] at found
    cases found
    exact .completes rfl
  · cases completed
    exact le_rfl

theorem deferHistory_steps {claim : Claim} {now : Time} (inv : s.RowsInv)
    (h : s.deferHistory claim now = .ok s') : s.Steps s' := by
  unfold deferHistory at h
  obtain ⟨row, locked, h⟩ := bind_ok.mp h
  rw [← pure_ok.mp h]
  exact .live_kept inv (lock_ok locked) rfl

/-! ### The history after release -/

theorem setReleased_own (h : ReleasedRow) : (s.setReleased domain h).released domain = some h := by
  simp [setReleased]

theorem setReleased_other {d : Domain} (h : ReleasedRow) (other : d ≠ domain) :
    (s.setReleased domain h).released d = s.released d := by
  simp [setReleased, other]

/-- The released row of a domain moved on. -/
theorem Steps.released {h' : ReleasedRow} (inv : s.RowsInv)
    (moves : ∀ h ∈ s.released domain, Reservation.Moves h.toReservation h'.toReservation)
    (reserves : s.Reserves domain h'.toReservation) : s.Steps (s.setReleased domain h') := by
  refine ⟨⟨inv.sorted, inv.below, fun d h held => ?_, fun d h held => ?_⟩,
    ⟨fun d h held => ⟨h, held, .refl _⟩, fun d h held => ?_, fun d => ⟨[], (List.append_nil _).symm, fun id none => ?_⟩⟩⟩
  · obtain ⟨lawful, settled⟩ := inv.live d h held
    exact ⟨lawful, settled⟩
  · by_cases own : d = domain
    · rw [own, setReleased_own] at held
      cases held
      rw [own]
      exact ⟨reserves.lawful, reserves.settled⟩
    · rw [setReleased_other h' own] at held
      obtain ⟨lawful, settled⟩ := inv.released d h held
      exact ⟨lawful, settled⟩
  · by_cases own : d = domain
    · rw [own] at held ⊢
      exact ⟨h', setReleased_own h', (moves h held).later (inv.released domain h held).lawful⟩
    · rw [setReleased_other h' own]
      exact ⟨h, held, .refl _⟩
  · cases none

theorem Steps.released_kept {h h' : ReleasedRow} (inv : s.RowsInv) (held : s.released domain = some h)
    (same : h'.toReservation = h.toReservation) : s.Steps (s.setReleased domain h') := by
  refine .released inv (fun again found => ?_) ?_
  · rw [held] at found
    cases found
    exact .kept same
  · rw [same]
    exact inv.released domain h held

/-- What lies up to the floor of a released domain was reserved before. -/
theorem releasedFloor_settled {after : Option OperationId} (inv : s.RowsInv)
    (h : s.releasedFloor domain = .ok after) : ∀ f ∈ after, s.Settled domain f := by
  have lower {f through : OperationId} (settled : s.Settled domain through) (le : f ≤ through) :
      s.Settled domain f := by
    cases domain with
    | commands => exact fun row held below => settled row held (below.trans le)
    | files => exact fun row held below => settled row held (below.trans le)
  intro f found
  unfold releasedFloor at h
  split at h
  next completed known =>
    obtain ⟨_, h⟩ := seq_ok.mp h
    rw [← pure_ok.mp h] at found
    cases found
    obtain ⟨row, held, done⟩ := Option.bind_eq_some_iff.mp known
    obtain ⟨lawful, settled⟩ := inv.released domain row held
    exact lower settled (lawful f done)
  next none =>
    obtain ⟨_, h⟩ := seq_ok.mp h
    rw [← pure_ok.mp h] at found
    obtain ⟨row, held, done⟩ := Option.bind_eq_some_iff.mp found
    obtain ⟨lawful, settled⟩ := inv.live domain row held
    exact lower settled (lawful f (Option.filter_eq_some_iff.mp done).1)

theorem reserveReleased_moves {h' : ReleasedRow} {epoch : ℤ} (inv : s.RowsInv)
    (h : s.reserveReleased enc domain epoch allowSimulated = .ok (some h')) :
    (∀ h ∈ s.released domain, Reservation.Moves h.toReservation h'.toReservation) ∧
      s.Reserves domain h'.toReservation := by
  unfold reserveReleased at h
  obtain ⟨after, floor, h⟩ := bind_ok.mp h
  have settledFloor := releasedFloor_settled inv floor
  split at h
  next absent =>
    obtain ⟨⟨through, guest⟩, extended, h⟩ := bind_ok.mp h
    obtain ⟨t, rfl, same⟩ := Option.map_eq_some_iff.mp (pure_ok.mp h)
    obtain ⟨_, settled⟩ := extend_settled inv settledFloor extended
    rw [← same]
    refine ⟨fun h held => ?_, ⟨fun c completed => ?_, settled⟩⟩
    · rw [absent] at held
      cases held
    · cases completed
  next known held =>
    have own := inv.released domain known held
    split at h
    next waits =>
      cases pure_ok.mp h
      refine ⟨fun again found => ?_, own⟩
      rw [held] at found
      cases found
      exact .kept rfl
    next finished =>
      obtain ⟨⟨through, guest⟩, extended, h⟩ := bind_ok.mp h
      obtain ⟨t, rfl, same⟩ := Option.map_eq_some_iff.mp (pure_ok.mp h)
      have completed : known.completedThrough = some known.reservedThrough := not_not.mp finished
      -- a finished domain goes on after its own completed prefix
      have start : after = some known.reservedThrough := by
        unfold releasedFloor at floor
        rw [held] at floor
        simp only [Option.bind_some, completed] at floor
        obtain ⟨_, floor⟩ := seq_ok.mp floor
        exact (pure_ok.mp floor).symm
      obtain ⟨above, settled⟩ := extend_settled inv settledFloor extended
      have higher : known.reservedThrough < t := above _ start
      rw [← same]
      refine ⟨fun again found => ?_, ⟨fun c found => ?_, settled⟩⟩
      · rw [held] at found
        cases found
        exact .enlarges finished higher rfl
      · rw [completed] at found
        cases found
        exact higher.le

theorem claimReleased_reservation {h h' : ReleasedRow} {epoch lease : ℤ} {now : Time}
    {preparation : ReleasedPreparation}
    (made : s.claimReleased enc h domain epoch lease allowSimulated now = .ok (h', preparation)) :
    h'.toReservation = h.toReservation := by
  unfold claimReleased at made
  dsimp only at made
  obtain ⟨_, made⟩ := seq_ok.mp made
  obtain ⟨_, _, made⟩ := bind_ok.mp made
  obtain ⟨_, made⟩ := seq_ok.mp made
  cases pure_ok.mp made
  rfl

theorem prepareReleased_steps {h' : ReleasedRow} {epoch lease : ℤ} {now : Time}
    {preparation : ReleasedPreparation} (inv : s.RowsInv)
    (made : s.prepareReleased enc domain epoch lease allowSimulated now = .ok (some (h', preparation))) :
    s.Steps (s.setReleased domain h') := by
  unfold prepareReleased at made
  obtain ⟨candidate, reserved, made⟩ := bind_ok.mp made
  cases candidate with
  | none => cases pure_ok.mp made
  | some h =>
    obtain ⟨⟨claimed, taken⟩, claiming, made⟩ := bind_ok.mp made
    cases pure_ok.mp made
    have same := claimReleased_reservation claiming
    obtain ⟨moves, reserves⟩ := reserveReleased_moves inv reserved
    rw [← same] at moves reserves
    exact .released inv moves reserves

theorem claimReleasedHistory_steps {host : HostId} {epoch lease : ℤ} {now : Time}
    {answer : Option ReleasedPreparation} (inv : s.RowsInv)
    (h : s.claimReleasedHistory enc host epoch domain lease allowSimulated now = .ok (s', answer)) :
    s.Steps s' := by
  unfold claimReleasedHistory at h
  obtain ⟨_, h⟩ := seq_ok.mp h
  split at h
  · cases pure_ok.mp h
    exact .still inv
  split at h
  next made =>
    cases pure_ok.mp h
    exact prepareReleased_steps inv made
  next =>
    cases pure_ok.mp h
    exact .still inv
  next =>
    cases pure_ok.mp h
    unfold retryReleased
    split
    · exact .still inv
    next held => exact .released_kept inv held rfl
  next => cases h

theorem lockReleased_ok {claim : ReleasedClaim} {now : Time} {h : ReleasedRow}
    (locked : s.lockReleased claim now = .ok h) : s.released claim.claim.domain = some h := by
  unfold lockReleased at locked
  obtain ⟨_, locked⟩ := seq_ok.mp locked
  obtain ⟨found, held, locked⟩ := bind_ok.mp locked
  obtain ⟨_, locked⟩ := seq_ok.mp locked
  rw [← pure_ok.mp locked]
  exact okOr_ok.mp held

theorem completeReleasedHistory_steps {claim : ReleasedClaim} {observed : ReleasedHistoryObservation}
    {now : Time} (inv : s.RowsInv)
    (h : s.completeReleasedHistory enc claim observed allowSimulated now = .ok s') : s.Steps s' := by
  unfold completeReleasedHistory at h
  obtain ⟨row, locked, h⟩ := bind_ok.mp h
  iterate 4 obtain ⟨_, _, h⟩ := bind_ok.mp h
  have held := lockReleased_ok locked
  have own := inv.released claim.claim.domain row held
  rw [← pure_ok.mp h]
  refine .released inv (fun again found => ?_) ⟨fun c completed => ?_, own.settled⟩
  · rw [held] at found
    cases found
    exact .completes rfl
  · cases completed
    exact le_rfl

theorem deferReleasedHistory_steps {claim : ReleasedClaim} {now : Time} (inv : s.RowsInv)
    (h : s.deferReleasedHistory claim now = .ok s') : s.Steps s' := by
  unfold deferReleasedHistory at h
  obtain ⟨row, locked, h⟩ := bind_ok.mp h
  rw [← pure_ok.mp h]
  exact .released_kept inv (lockReleased_ok locked) rfl

/-! ### Every interleaving -/

theorem historyStep_steps (s : AllocationRows) (event : HistoryEvent) (inv : s.RowsInv) :
    s.Steps (s.historyStep enc event) := by
  have still : s.Steps s := .still inv
  have keeps {ε : Type} {result : Except ε AllocationRows}
      (steps : ∀ next, result = .ok next → s.Steps next) : s.Steps (commit s result) :=
    commit_keeps (P := fun next => s.Steps next) still steps
  cases event with
  | allocation view => exact .of_update inv rfl rfl rfl (fun d => by cases d <;> rfl) (fun _ _ _ settled => settled)
  | retire => exact .of_update inv rfl rfl rfl (fun d => by cases d <;> rfl) (fun _ _ _ settled => settled)
  | admitExecute r candidate ready now =>
    refine keeps fun next h => ?_
    obtain ⟨id, h⟩ := map_fst_ok h
    exact (admitExecute_admits h).steps inv
  | admitUpload r candidate attempt ready now expiresAt =>
    refine keeps fun next h => ?_
    obtain ⟨id, h⟩ := map_fst_ok h
    exact (admitUpload_admits h).steps inv
  | command id allowSimulated event =>
    exact .of_update inv rfl rfl rfl (fun d => updateCommand_ids id event)
      (fun d r _ settled => updateCommand_settled settled)
  | upload id allowSimulated event =>
    exact .of_update inv rfl rfl rfl (fun d => updateUpload_ids id event)
      (fun d r _ settled => updateUpload_settled settled)
  | claimHistory host epoch domain lease allowSimulated now =>
    refine keeps fun next h => ?_
    obtain ⟨answer, h⟩ := map_fst_ok h
    exact claimHistory_steps inv h
  | bindHistory claim observation allowSimulated now =>
    refine keeps fun next h => ?_
    obtain ⟨request, h⟩ := map_fst_ok h
    exact bindHistory_steps inv h
  | completeHistory claim observation allowSimulated now =>
    exact keeps fun next h => completeHistory_steps inv h
  | deferHistory claim now => exact keeps fun next h => deferHistory_steps inv h
  | claimReleasedHistory host epoch domain lease allowSimulated now =>
    refine keeps fun next h => ?_
    obtain ⟨answer, h⟩ := map_fst_ok h
    exact claimReleasedHistory_steps inv h
  | completeReleasedHistory claim observed allowSimulated now =>
    exact keeps fun next h => completeReleasedHistory_steps inv h
  | deferReleasedHistory claim now => exact keeps fun next h => deferReleasedHistory_steps inv h

theorem placed_inv (allocation : PinnedAllocation) (view : AllocationView) :
    (AllocationRows.placed allocation view).RowsInv := by
  refine ⟨fun d => ?_, fun d id found => ?_, fun d h held => ?_, fun d h held => ?_⟩
  · cases d <;> exact .nil
  · cases d <;> cases found
  · cases held
  · cases held

theorem run_inv (events : List HistoryEvent) (inv : s.RowsInv) :
    (run (historyStep enc) s events).RowsInv :=
  run_invariant (fun s event inv => (historyStep_steps s event inv).inv) inv

theorem run_onward (events : List HistoryEvent) (inv : s.RowsInv) :
    s.Onward (run (historyStep enc) s events) := by
  induction events generalizing s with
  | nil => exact .refl s
  | cons event rest ih =>
    have first := @historyStep_steps enc s event inv
    exact first.onward.trans (ih first.inv)

/-- The operations that a reservation waits for stay the same, whatever joins later. -/
theorem Onward.waiting {r : Reservation OperationId} (onward : s.Onward s') (held : r.reservedThrough ∈ s.reserved) :
    r.waiting (s'.ids domain) = r.waiting (s.ids domain) := by
  obtain ⟨new, grown, above⟩ := onward.grows domain
  rw [grown]
  exact Reservation.waiting_append fun id joined => above id joined r.reservedThrough held

theorem historyStep_last (s : AllocationRows) (event : HistoryEvent) (quiet : s.admits enc event = none) :
    (s.historyStep enc event).lastAdmitted = s.lastAdmitted := by
  have keeps {ε : Type} {result : Except ε AllocationRows}
      (same : ∀ next, result = .ok next → next.lastAdmitted = s.lastAdmitted) :
      (commit s result).lastAdmitted = s.lastAdmitted :=
    commit_keeps (P := fun next : AllocationRows => next.lastAdmitted = s.lastAdmitted) rfl same
  have refused {ε : Type} {result : Except ε (AllocationRows × OperationId)}
      (silent : result.toOption.map Prod.snd = none) : commit s (result.map Prod.fst) = s := by
    cases result with
    | ok answer => cases silent
    | error e => rfl
  cases event with
  | allocation | retire | command | upload => rfl
  | admitExecute r candidate ready now =>
    show (commit s _).lastAdmitted = _
    rw [refused quiet]
  | admitUpload r candidate attempt ready now expiresAt =>
    show (commit s _).lastAdmitted = _
    rw [refused quiet]
  | claimHistory host epoch domain lease allowSimulated now =>
    refine keeps fun next h => ?_
    obtain ⟨answer, h⟩ := map_fst_ok h
    unfold claimHistory at h
    obtain ⟨_, h⟩ := seq_ok.mp h
    split at h
    · cases pure_ok.mp h
      rfl
    split at h
    · cases pure_ok.mp h
      rfl
    · cases pure_ok.mp h
      rfl
    · cases pure_ok.mp h
      unfold retryLive
      split <;> rfl
    · cases h
  | bindHistory claim observation allowSimulated now =>
    refine keeps fun next h => ?_
    obtain ⟨request, h⟩ := map_fst_ok h
    unfold bindHistory at h
    iterate 7 obtain ⟨_, _, h⟩ := bind_ok.mp h
    cases pure_ok.mp h
    rfl
  | completeHistory claim observation allowSimulated now =>
    refine keeps fun next h => ?_
    unfold completeHistory at h
    iterate 6 obtain ⟨_, _, h⟩ := bind_ok.mp h
    rw [← pure_ok.mp h]
    rfl
  | deferHistory claim now =>
    refine keeps fun next h => ?_
    unfold deferHistory at h
    obtain ⟨_, _, h⟩ := bind_ok.mp h
    rw [← pure_ok.mp h]
    rfl
  | claimReleasedHistory host epoch domain lease allowSimulated now =>
    refine keeps fun next h => ?_
    obtain ⟨answer, h⟩ := map_fst_ok h
    unfold claimReleasedHistory at h
    obtain ⟨_, h⟩ := seq_ok.mp h
    split at h
    · cases pure_ok.mp h
      rfl
    split at h
    · cases pure_ok.mp h
      rfl
    · cases pure_ok.mp h
      rfl
    · cases pure_ok.mp h
      unfold retryReleased
      split <;> rfl
    · cases h
  | completeReleasedHistory claim observed allowSimulated now =>
    refine keeps fun next h => ?_
    unfold completeReleasedHistory at h
    iterate 5 obtain ⟨_, _, h⟩ := bind_ok.mp h
    rw [← pure_ok.mp h]
    rfl
  | deferReleasedHistory claim now =>
    refine keeps fun next h => ?_
    unfold deferReleasedHistory at h
    obtain ⟨_, _, h⟩ := bind_ok.mp h
    rw [← pure_ok.mp h]
    rfl

/-- What an event admits it admits in one transaction. -/
theorem admits_ok {event : HistoryEvent} {id : OperationId} (h : s.admits enc event = some id) :
    s.Admits (s.historyStep enc event) id := by
  have taken {result : Except DispatchError (AllocationRows × OperationId)}
      (answered : result.toOption.map Prod.snd = some id) :
      ∃ next, result = .ok (next, id) ∧ commit s (result.map Prod.fst) = next := by
    cases result with
    | ok answer =>
      cases answered
      exact ⟨answer.1, rfl, rfl⟩
    | error e => cases answered
  cases event with
  | admitExecute r candidate ready now =>
    obtain ⟨next, made, same⟩ := taken h
    rw [historyStep, same]
    exact admitExecute_admits made
  | admitUpload r candidate attempt ready now expiresAt =>
    obtain ⟨next, made, same⟩ := taken h
    rw [historyStep, same]
    exact admitUpload_admits made
  | allocation | retire | command | upload | claimHistory | bindHistory | completeHistory | deferHistory
  | claimReleasedHistory | completeReleasedHistory | deferReleasedHistory => cases h

theorem admission_ascends : Ascends (historyStep enc) (admits enc) lastAdmitted where
  above _ _ _ h := ⟨(admits_ok h).above, (admits_ok h).last⟩
  keeps := historyStep_last

/-- Whoever admits, dispatches, observes or retires operations of an allocation, in any order: the
admitted identities strictly increase and lie above every reserved prefix; a reserved prefix waits
for the same operations until exactly it is completed, and is only enlarged after that; the
completed prefix never goes back; and all operations that a reserved prefix covers have ended, with
no claim on them left. -/
theorem reserved_prefixes (enc : Encodings) (allocation : PinnedAllocation) (view : AllocationView)
    (before after : List HistoryEvent) :
    let s := run (historyStep enc) (.placed allocation view) before
    let t := run (historyStep enc) s after
    (answers (historyStep enc) (admits enc) (.placed allocation view) (before ++ after)).Pairwise (· < ·) ∧
    (∀ event id, s.admits enc event = some id → ∀ r ∈ s.reserved, r < id) ∧
    (∀ d, ∀ h ∈ s.live d,
      (∃ h' ∈ t.live d, Reservation.Later h.toReservation h'.toReservation) ∧
        h.waiting (t.ids d) = h.waiting (s.ids d) ∧
        ∀ op ∈ s.operations d, op.id ≤ h.reservedThrough → Ended op) ∧
    ∀ d, ∀ h ∈ s.released d,
      (∃ h' ∈ t.released d, Reservation.Later h.toReservation h'.toReservation) ∧
        h.waiting (t.ids d) = h.waiting (s.ids d) ∧
        ∀ op ∈ s.operations d, op.id ≤ h.reservedThrough → Ended op := by
  intro s t
  have inv : s.RowsInv := run_inv before (placed_inv allocation view)
  have onward : s.Onward t := run_onward after inv
  refine ⟨admission_ascends.answers_increase _ _, ?_, ?_, ?_⟩
  · intro event id admitted
    exact (admits_ok admitted).free
  · intro d h held
    have reserved : h.reservedThrough ∈ s.reserved := mem_reserved.mpr ⟨d, .inl ⟨h, held, rfl⟩⟩
    exact ⟨onward.live d h held, onward.waiting reserved, (inv.live d h held).settled.ended⟩
  · intro d h held
    have reserved : h.reservedThrough ∈ s.reserved := mem_reserved.mpr ⟨d, .inr ⟨h, held, rfl⟩⟩
    exact ⟨onward.released d h held, onward.waiting reserved, (inv.released d h held).settled.ended⟩

end AllocationRows
end HudsonSandbox.History
