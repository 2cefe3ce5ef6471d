import HudsonSandbox.Library.Run
import HudsonSandbox.Sources.Identity

/-!
# Source cleanup as one system

The upload's rows, the key of its attempt in object storage, the writes in flight to it and the
retirement workers, interleaved in any order. Results: the row's identity never changes, a frozen
manifest never changes, and a recorded receipt stays the one that history retirement reads.
-/

namespace HudsonSandbox.Store
open Checked FileDownloads Files FileSources Artifacts Run

structure System (bucket : Bucket) where
  row : UploadRow
  objects : bucket.State
  puts : List Put
  workers : List Worker

inductive Event where
  -- the claim holder of the operation
  | claimUpload (lease : ℤ) (now : Time)
  | renewUpload (claim : Claim) (lease : ℤ) (now : Time)
  | deferUpload (claim : Claim) (delay : ℤ) (now : Time)
  | prepareUpload (claim : Claim) (host : HostId) (epoch : ℤ) (authority : Bool) (now : Time)
  | acceptUploadSource (claim : Claim) (source : SourceRef) (now : Time)
  | observeUpload (claim : Claim) (status : Status) (now : Time)
  -- source cleanup in the database
  | claimFileSourceCleanup (lease : ℤ) (now : Time)
  | completeFileSourceCleanup (claim : SourceCleanupClaim) (worker : ℕ) (now : Time)
  | deferFileSourceCleanup (claim : SourceCleanupClaim) (delay : ℤ) (now : Time)
  -- object storage
  | upload (bytes : Bytes) (nowUnixMs : ℤ)
  | land (put : ℕ)
  | retire (claim : SourceCleanupClaim) (now : Time)
  | advance (worker : ℕ) (reply : Reply)

section Steps
variable {bucket : Bucket} (enc : Encoding) (request : SandboxId → UploadInput → BitVec 256)

/-- A freshly admitted attempt: nothing was ever stored under its key. -/
def System.initial (bucket : Bucket) (row : UploadRow) : System bucket :=
  { row, objects := bucket.empty, puts := [], workers := [] }

def UploadRow.key (row : UploadRow) : List Char :=
  match row.file.plan.objectKey with
  | .ok key => key
  | .error _ => []

def System.object (s : System bucket) : Option Object := bucket.get s.objects s.row.key

def System.commit (s : System bucket) (result : Except DispatchError UploadRow) : System bucket :=
  match result with
  | .ok row => { s with row }
  | .error _ => s

/-- What one retirement worker still has to send after its phase changed. -/
def outgoing : Phase → List Put
  | .put body => [body]
  | _ => []

def step (s : System bucket) : Event → System bucket
  | .claimUpload lease now => s.commit (claimUpload s.row lease now)
  | .renewUpload claim lease now => s.commit (renewUpload s.row claim lease now)
  | .deferUpload claim delay now => s.commit (deferUpload s.row claim delay now)
  | .prepareUpload claim host epoch authority now =>
    s.commit (prepareUpload enc request s.row claim host epoch authority now)
  | .acceptUploadSource claim source now =>
    s.commit (acceptUploadSource enc request s.row claim source now)
  | .observeUpload claim status now => s.commit (observeUpload enc request s.row claim status now)
  | .claimFileSourceCleanup lease now => s.commit (claimFileSourceCleanup enc request s.row lease now)
  | .completeFileSourceCleanup claim worker now =>
    match s.workers[worker]? with
    | some { phase := .returned receipt, .. } =>
      s.commit (completeFileSourceCleanup enc request s.row claim receipt now)
    | _ => s
  | .deferFileSourceCleanup claim delay now => s.commit (deferFileSourceCleanup s.row claim delay now)
  | .upload bytes nowUnixMs =>
    match uploadPut enc s.row.file.plan nowUnixMs bytes with
    | .error _ => s
    | .ok body => { s with puts := s.puts ++ [body] }
  | .land put =>
    match s.puts[put]? with
    | some body => { s with objects := bucket.put s.objects s.row.key body }
    | none => s
  | .retire claim now =>
    match prepareFileSourceCleanup enc request s.row claim now with
    | .error _ => s
    | .ok (m, nowUnixMs) =>
      match Artifacts.retire m.plan m.plan.owner m.selected nowUnixMs with
      | .error _ => s
      | .ok worker => { s with workers := s.workers ++ [worker] }
  | .advance worker reply =>
    match s.workers[worker]? with
    | none => s
    | some w =>
      let phase := w.advance enc s.object reply
      { s with
        workers := s.workers.set worker { w with phase }
        puts := s.puts ++ outgoing phase }

/-- A marker write that takes the place of a stored object takes the place of the source that the
row selects. -/
def Quiet (s : System bucket) : Event → Prop
  | .land put =>
    match s.puts[put]? with
    | some { mode := .update _, .. } =>
      (step enc request s (.land put)).object ≠ s.object → s.row.file.sourceRef ≠ none
    | _ => True
  | _ => True

instance (s : System bucket) (event : Event) : Decidable (Quiet enc request s event) := by
  unfold Quiet
  split
  · split <;> infer_instance
  · infer_instance

end Steps

/-! ### Every reachable state -/

section Reachable
variable {bucket : Bucket} {enc : Encoding} {request : SandboxId → UploadInput → BitVec 256} {s : System bucket}

/-- A write in flight: of source bytes, or of a marker for the frozen selection. -/
def InFlight (enc : Encoding) (row : UploadRow) (body : Put) : Prop :=
  body.attributes.lookup markerKey = none ∨
    row.file.sourceFrozenAt ≠ none ∧ MarkerPut enc row.file.sourceRef body

structure Employed (enc : Encoding) (row : UploadRow) (w : Worker) : Prop where
  frozen : row.file.sourceFrozenAt ≠ none
  plan : w.plan = row.file.plan
  selected : w.selected = row.file.sourceRef
  evidence : ∀ r ∈ w.phase.receipt?, Evidence enc row r

structure SystemInv (enc : Encoding) (request : SandboxId → UploadInput → BitVec 256)
    (s : System bucket) : Prop where
  row : RowInv enc request s.row
  puts : ∀ body ∈ s.puts, InFlight enc s.row body
  workers : ∀ w ∈ s.workers, Employed enc s.row w

theorem InFlight.grow {row row' : UploadRow} {body : Put} (flight : InFlight enc row body)
    (grows : Grows row row') : InFlight enc row' body := by
  rcases flight with plain | ⟨frozen, marker⟩
  · exact .inl plain
  · obtain ⟨frozen, same⟩ := grows.frozen frozen
    exact .inr ⟨frozen, by rw [same]; exact marker⟩

theorem Employed.grow {row row' : UploadRow} {w : Worker} (employed : Employed enc row w)
    (grows : Grows row row') : Employed enc row' w := by
  obtain ⟨frozen, plan, selected, evidence⟩ := employed
  obtain ⟨frozen, same⟩ := grows.frozen frozen
  refine ⟨frozen, by rw [plan, grows.plan], by rw [selected, same], fun r held => ?_⟩
  obtain ⟨valid, chosen⟩ := evidence r held
  exact ⟨by rw [grows.plan]; exact valid, by rw [same]; exact chosen⟩

theorem SystemInv.commit {result : Except DispatchError UploadRow} (inv : SystemInv enc request s)
    (keeps : ∀ row', result = .ok row' → RowInv enc request row' ∧ Grows s.row row') :
    SystemInv enc request (s.commit result) ∧ Grows s.row (s.commit result).row := by
  cases result with
  | error error => exact ⟨inv, .refl s.row⟩
  | ok row' =>
    obtain ⟨row, grows⟩ := keeps row' rfl
    exact ⟨⟨row, fun body sent => (inv.puts body sent).grow grows,
      fun w known => (inv.workers w known).grow grows⟩, grows⟩

theorem Keeps.pair {row row' : UploadRow} (keeps : Keeps enc request row row') :
    RowInv enc request row' ∧ Grows row row' := ⟨keeps.inv, keeps.grows⟩

theorem retire_ok {plan : SourcePlan} {owner : SourceOwner} {selected : Option SourceRef} {now : ℤ}
    {w : Worker} (h : Artifacts.retire plan owner selected now = .ok w) :
    w = { plan, selected, phase := .first } := by
  unfold Artifacts.retire at h
  obtain ⟨_, _, h⟩ := bind_ok.mp h
  obtain ⟨_, _, h⟩ := bind_ok.mp h
  obtain ⟨_, _, h⟩ := bind_ok.mp h
  split at h
  · exact (pure_ok.mp h).symm
  · obtain ⟨_, _, h⟩ := bind_ok.mp h
    obtain ⟨_, _, h⟩ := bind_ok.mp h
    exact (pure_ok.mp h).symm

theorem prepare_ok {claim : SourceCleanupClaim} {now : Time} {m : SourceCleanupManifest} {nowUnixMs : ℤ}
    (h : prepareFileSourceCleanup enc request s.row claim now = .ok (m, nowUnixMs)) :
    s.row.file.sourceFrozenAt ≠ none ∧ m = s.row.frozenManifest := by
  unfold prepareFileSourceCleanup at h
  obtain ⟨saved, found, h⟩ := bind_ok.mp h
  obtain ⟨_, frozen, _, same⟩ := manifest_ok.mp found
  obtain ⟨_, _, h⟩ := bind_ok.mp h
  cases pure_ok.mp h
  exact ⟨frozen, same⟩

/-- A worker's step keeps it in the row's employ, and sends only writes that the row expects. -/
theorem Employed.advance {w : Worker} {row : UploadRow} (employed : Employed enc row w)
    (object : Option Object) (reply : Reply) :
    Employed enc row { w with phase := w.advance enc object reply } ∧
      ∀ body ∈ outgoing (w.advance enc object reply), InFlight enc row body := by
  obtain ⟨frozen, plan, selected, evidence⟩ := employed
  refine ⟨⟨frozen, plan, selected, fun r held => ?_⟩, fun body sent => ?_⟩
  · rcases advance_receipt held with before | marked
    · exact evidence r before
    · exact ⟨by rw [← plan]; exact marked.valid, by rw [← selected]; exact marked.selected⟩
  · cases phase : w.advance enc object reply with
    | put again =>
      rw [phase] at sent
      obtain rfl := List.mem_singleton.mp sent
      exact .inr ⟨frozen, by rw [← selected]; exact advance_put phase⟩
    | _ =>
      rw [phase] at sent
      cases sent

theorem step_inv (inv : SystemInv enc request s) (event : Event) :
    SystemInv enc request (step enc request s event) ∧ Grows s.row (step enc request s event).row := by
  cases event with
  | claimUpload lease now => exact inv.commit fun _ h => (claimUpload_keeps inv.row h).pair
  | renewUpload claim lease now => exact inv.commit fun _ h => (renewUpload_keeps inv.row h).pair
  | deferUpload claim delay now => exact inv.commit fun _ h => (deferUpload_keeps inv.row h).pair
  | prepareUpload claim host epoch authority now =>
    exact inv.commit fun _ h => (prepareUpload_keeps inv.row h).pair
  | acceptUploadSource claim source now =>
    exact inv.commit fun _ h => (acceptUploadSource_keeps inv.row h).pair
  | observeUpload claim status now => exact inv.commit fun _ h => (observeUpload_keeps inv.row h).pair
  | claimFileSourceCleanup lease now =>
    exact inv.commit fun _ h => (claimFileSourceCleanup_keeps inv.row h).pair
  | completeFileSourceCleanup claim worker now =>
    simp only [step]
    split
    · refine inv.commit fun _ h => ?_
      obtain ⟨row, grows, _⟩ := completeFileSourceCleanup_keeps inv.row h
      exact ⟨row, grows⟩
    · exact ⟨inv, .refl _⟩
  | deferFileSourceCleanup claim delay now =>
    exact inv.commit fun _ h => (deferFileSourceCleanup_keeps inv.row h).pair
  | upload bytes nowUnixMs =>
    simp only [step]
    split
    · exact ⟨inv, .refl _⟩
    next body made =>
      refine ⟨⟨inv.row, fun again sent => ?_, inv.workers⟩, .refl _⟩
      rcases List.mem_append.mp sent with before | fresh
      · exact inv.puts again before
      · obtain rfl := List.mem_singleton.mp fresh
        exact .inl (uploadPut_ok made)
  | land put =>
    simp only [step]
    split
    · exact ⟨⟨inv.row, inv.puts, inv.workers⟩, .refl _⟩
    · exact ⟨inv, .refl _⟩
  | retire claim now =>
    simp only [step]
    split
    · exact ⟨inv, .refl _⟩
    next m nowUnixMs prepared =>
      split
      · exact ⟨inv, .refl _⟩
      next w made =>
        obtain ⟨frozen, rfl⟩ := prepare_ok prepared
        obtain rfl := retire_ok made
        refine ⟨⟨inv.row, inv.puts, fun again known => ?_⟩, .refl _⟩
        rcases List.mem_append.mp known with before | fresh
        · exact inv.workers again before
        · obtain rfl := List.mem_singleton.mp fresh
          exact ⟨frozen, rfl, rfl, fun _ held => (by cases held)⟩
  | advance worker reply =>
    simp only [step]
    split
    · exact ⟨inv, .refl _⟩
    next w known =>
      obtain ⟨employed, sent⟩ :=
        (inv.workers w (List.mem_of_getElem? known)).advance s.object reply
      refine ⟨⟨inv.row, fun body member => ?_, fun again member => ?_⟩, .refl _⟩
      · rcases List.mem_append.mp member with before | fresh
        · exact inv.puts body before
        · exact sent body fresh
      · rcases List.mem_or_eq_of_mem_set member with before | rfl
        · exact inv.workers again before
        · exact employed

/-- While nothing is selected, no marker and no receipt names a replaced source. -/
structure Unreplaced (enc : Encoding) (s : System bucket) : Prop where
  object : ∀ o ∈ s.object, o.attributes.lookup markerKey ≠ none →
    ∀ m, enc.marker.decode o.bytes = some m → m.previous = none
  workers : ∀ w ∈ s.workers, ∀ r ∈ w.phase.receipt?, r.previous = none
  recorded : ∀ r ∈ s.row.file.sourceRetirement, r.previous = none

def Unselected (enc : Encoding) (s : System bucket) : Prop :=
  s.row.file.sourceRef = none → Unreplaced enc s

theorem key_grows {row row' : UploadRow} (grows : Grows row row') : row'.key = row.key := by
  unfold UploadRow.key
  rw [grows.plan]

/-- A committed transaction changes neither the object, nor the writes, nor the workers. -/
theorem Unselected.commit {result : Except DispatchError UploadRow} (clean : Unselected enc s)
    (keeps : ∀ row', result = .ok row' → Grows s.row row' ∧
      ∀ r ∈ row'.file.sourceRetirement, r ∈ s.row.file.sourceRetirement ∨
        ∃ w ∈ s.workers, r ∈ w.phase.receipt?) : Unselected enc (s.commit result) := by
  cases result with
  | error error => exact clean
  | ok row' =>
    obtain ⟨grows, recorded⟩ := keeps row' rfl
    intro absent
    obtain ⟨object, workers, before⟩ := clean (grows.unselected absent)
    refine ⟨?_, workers, fun r saved => ?_⟩
    · show ∀ o ∈ bucket.get s.objects row'.key, _
      rw [key_grows grows]
      exact object
    · rcases recorded r saved with old | ⟨w, member, held⟩
      · exact before r old
      · exact workers w member r held

theorem Keeps.unrecorded_or {row row' : UploadRow} {workers : List Worker}
    (keeps : Keeps enc request row row') : Grows row row' ∧
      ∀ r ∈ row'.file.sourceRetirement, r ∈ row.file.sourceRetirement ∨
        ∃ w ∈ workers, r ∈ w.phase.receipt? :=
  ⟨keeps.grows, fun r saved => .inl (by rw [← keeps.unrecorded]; exact saved)⟩

/-- A landing write leaves the object alone, finds the key empty, or replaces what is there. -/
theorem land_object {body : Put} (inv : SystemInv enc request s) (clean : Unreplaced enc s)
    (absent : s.row.file.sourceRef = none) (sent : body ∈ s.puts)
    (plain : (∃ v, body.mode = .update v) → bucket.get (bucket.put s.objects s.row.key body) s.row.key = s.object) :
    ∀ o ∈ bucket.get (bucket.put s.objects s.row.key body) s.row.key,
      o.attributes.lookup markerKey ≠ none →
        ∀ m, enc.marker.decode o.bytes = some m → m.previous = none := by
  intro o found marked m decoded
  rcases bucket.put_effect s.objects s.row.key body with same | ⟨_, stored, now, bytes, attributes⟩
  · rw [same] at found
    exact clean.object o found marked m decoded
  cases mode : body.mode with
  | update v =>
    rw [plain ⟨v, mode⟩] at found
    exact clean.object o found marked m decoded
  | create =>
    obtain rfl : stored = o := Option.some.inj (now.symm.trans found)
    rcases inv.puts body sent with source | ⟨_, m', encoded, previous⟩
    · rw [attributes] at marked
      exact absurd source marked
    · rw [bytes, enc.roundTrips _ _ encoded] at decoded
      rw [← Option.some.inj decoded, previous mode, absent]

theorem step_unselected (inv : SystemInv enc request s) (clean : Unselected enc s) (event : Event)
    (quiet : Quiet enc request s event) : Unselected enc (step enc request s event) := by
  cases event with
  | claimUpload lease now => exact clean.commit fun _ h => (claimUpload_keeps inv.row h).unrecorded_or
  | renewUpload claim lease now => exact clean.commit fun _ h => (renewUpload_keeps inv.row h).unrecorded_or
  | deferUpload claim delay now => exact clean.commit fun _ h => (deferUpload_keeps inv.row h).unrecorded_or
  | prepareUpload claim host epoch authority now =>
    exact clean.commit fun _ h => (prepareUpload_keeps inv.row h).unrecorded_or
  | acceptUploadSource claim source now =>
    exact clean.commit fun _ h => (acceptUploadSource_keeps inv.row h).unrecorded_or
  | observeUpload claim status now =>
    exact clean.commit fun _ h => (observeUpload_keeps inv.row h).unrecorded_or
  | claimFileSourceCleanup lease now =>
    exact clean.commit fun _ h => (claimFileSourceCleanup_keeps inv.row h).unrecorded_or
  | deferFileSourceCleanup claim delay now =>
    exact clean.commit fun _ h => (deferFileSourceCleanup_keeps inv.row h).unrecorded_or
  | completeFileSourceCleanup claim worker now =>
    simp only [step]
    split
    next plan selected receipt known =>
      refine clean.commit fun _ h => ?_
      obtain ⟨_, grows, recorded⟩ := completeFileSourceCleanup_keeps inv.row h
      refine ⟨grows, fun r saved => .inr ⟨_, List.mem_of_getElem? known, ?_⟩⟩
      rw [recorded] at saved
      exact saved
    · exact clean
  | upload bytes nowUnixMs =>
    simp only [step]
    split
    · exact clean
    · intro absent
      obtain ⟨object, workers, recorded⟩ := clean absent
      exact ⟨object, workers, recorded⟩
  | land put =>
    simp only [step]
    split
    next body sent =>
      intro absent
      refine ⟨land_object inv (clean absent) absent (List.mem_of_getElem? sent) ?_,
        (clean absent).workers, (clean absent).recorded⟩
      rintro ⟨v, mode⟩
      obtain ⟨_, bytes, attributes⟩ := body
      obtain rfl : _ = PutMode.update v := mode
      simp only [Quiet, sent, step] at quiet
      by_contra changed
      exact quiet changed absent
    · exact clean
  | retire claim now =>
    simp only [step]
    split
    · exact clean
    next m nowUnixMs prepared =>
      split
      · exact clean
      next w made =>
        intro absent
        obtain ⟨object, workers, recorded⟩ := clean absent
        refine ⟨object, fun again member r held => ?_, recorded⟩
        rcases List.mem_append.mp member with before | fresh
        · exact workers again before r held
        · obtain rfl := List.mem_singleton.mp fresh
          rw [retire_ok made] at held
          cases held
  | advance worker reply =>
    simp only [step]
    split
    · exact clean
    next w known =>
      intro absent
      obtain ⟨object, workers, recorded⟩ := clean absent
      refine ⟨object, fun again member r held => ?_, recorded⟩
      rcases List.mem_or_eq_of_mem_set member with before | rfl
      · exact workers again before r held
      rcases advance_receipt held with before | ⟨_, _, o, found, marked, m, decoded, same⟩
      · exact workers w (List.mem_of_getElem? known) r before
      · rw [← same]
        exact object o found marked m decoded

/-! ### Runs from admission -/

section Admitted
variable {r : UploadCommand} {id attempt : OperationId} {allocation : Allocation}
  {admission : Time} {expiresAt : Option Time} {row : UploadRow}

theorem admittedRow_inv {plan : SourcePlan} {deadline : Time} (valid : plan.validate = .ok ())
    (owner : plan.owner = (admittedRow request r id allocation plan deadline).expected)
    (input : UploadInput.fromPlan plan = r.input)
    (owned : allocation.projectId = r.projectId ∧ allocation.sandboxId = r.sandboxId) :
    RowInv enc request (admittedRow request r id allocation plan deadline) := by
  refine ⟨⟨rfl, rfl, rfl, rfl, valid, rfl, ⟨rfl, owned⟩, ⟨owner, input, ?_, ?_, rfl⟩, ?_, rfl,
    fun begun => Bool.noConfusion begun⟩, fun _ => rfl, fun frozen => absurd rfl frozen, fun done => absurd rfl done, fun _ => rfl⟩
  · show (r.input.size : ℤ) = plan.upload.size
    rw [← input]
    rfl
  · show request r.sandboxId r.input = request r.sandboxId (UploadInput.fromPlan plan)
    rw [input]
  · intro chosen found
    cases found

theorem admitUpload_ok
    (admitted : admitUpload request r id attempt allocation admission expiresAt = .ok row) :
    (allocation.projectId = r.projectId ∧ allocation.sandboxId = r.sandboxId) ∧
      ∃ deadline, (admittedPlan r id attempt allocation admission deadline).validate = .ok () ∧
        row = admittedRow request r id allocation
          (admittedPlan r id attempt allocation admission deadline) deadline := by
  unfold admitUpload at admitted
  obtain ⟨_, _, admitted⟩ := bind_ok.mp admitted
  obtain ⟨_, owned, admitted⟩ := bind_ok.mp admitted
  obtain ⟨_, _, admitted⟩ := bind_ok.mp admitted
  obtain ⟨_, valid, admitted⟩ := bind_ok.mp admitted
  exact ⟨ensure_ok.mp owned, _, mapError_ok.mp valid, (pure_ok.mp admitted).symm⟩

theorem admitUpload_inv
    (admitted : admitUpload request r id attempt allocation admission expiresAt = .ok row) :
    RowInv enc request row := by
  obtain ⟨owned, deadline, valid, rfl⟩ := admitUpload_ok admitted
  exact admittedRow_inv valid rfl rfl owned

theorem admitted_inv (bucket : Bucket) (enc : Encoding)
    (admitted : admitUpload request r id attempt allocation admission expiresAt = .ok row) :
    SystemInv enc request (System.initial bucket row) ∧ Unselected enc (System.initial bucket row) := by
  have kept : RowInv enc request row := admitUpload_inv admitted
  obtain ⟨owned, deadline, valid, rfl⟩ := admitUpload_ok admitted
  refine ⟨⟨kept, List.forall_mem_nil _, List.forall_mem_nil _⟩,
    fun _ => ⟨fun o found => ?_, List.forall_mem_nil _, fun _ saved => (by cases saved)⟩⟩
  rw [System.object, System.initial, bucket.get_empty] at found
  cases found

theorem run_grows {s : System bucket} (inv : SystemInv enc request s) (events : List Event) :
    SystemInv enc request (run (step enc request) s events) ∧
      Grows s.row (run (step enc request) s events).row := by
  induction events generalizing s with
  | nil => exact ⟨inv, .refl _⟩
  | cons event rest ih =>
    obtain ⟨next, grows⟩ := step_inv inv event
    obtain ⟨last, grown⟩ := ih next
    exact ⟨last, grows.trans grown⟩

/-- Over every run: a recorded receipt passes the reader exactly when the frozen manifest selects
a source or the marker replaced none. -/
theorem recorded_source_accepted_iff {events : List Event} {receipt : SourceRetirement}
    (admitted : admitUpload request r id attempt allocation admission expiresAt = .ok row)
    (recorded : (run (step enc request) (System.initial bucket row) events).row.file.sourceRetirement =
      some receipt) :
    validateRetired enc request (run (step enc request) (System.initial bucket row) events).row =
        .ok row.file.plan ↔
      (run (step enc request) (System.initial bucket row) events).row.file.sourceRef.isSome = true ∨
        receipt.previous = none := by
  obtain ⟨inv, grows⟩ := run_grows (admitted_inv bucket enc admitted).1 events
  have done : (run (step enc request) (System.initial bucket row) events).row.file.sourceRetiredAt ≠ none := by
    intro absent
    rw [inv.row.unretired absent] at recorded
    cases recorded
  obtain ⟨_, _, saved, same, evidence⟩ := inv.row.retired done
  obtain rfl : saved = receipt := Option.some.inj (same.symm.trans recorded)
  rw [← evidence.previous_iff, ← validateRetired_iff inv.row recorded, grows.plan]
  rfl

/-- A receipt that the reader refuses once is refused after every continuation of the run. -/
theorem refused_for_ever {before after : List Event} {receipt : SourceRetirement}
    (admitted : admitUpload request r id attempt allocation admission expiresAt = .ok row)
    (recorded : (run (step enc request) (System.initial bucket row) before).row.file.sourceRetirement =
      some receipt)
    (refused : validateRetired enc request (run (step enc request) (System.initial bucket row) before).row ≠
      .ok row.file.plan) :
    validateRetired enc request
        (run (step enc request) (System.initial bucket row) (before ++ after)).row ≠
      .ok row.file.plan := by
  obtain ⟨inv, _⟩ := run_grows (admitted_inv bucket enc admitted).1 before
  obtain ⟨_, grows⟩ := run_grows inv after
  rw [Ne, recorded_source_accepted_iff admitted recorded] at refused
  have frozen : (run (step enc request) (System.initial bucket row) before).row.file.sourceFrozenAt ≠ none := by
    refine (inv.row.retired fun absent => ?_).1
    rw [inv.row.unretired absent] at recorded
    cases recorded
  have later := grows.receipt receipt recorded
  rw [← run_append] at later
  rw [Ne, recorded_source_accepted_iff admitted later, run_append, (grows.frozen frozen).2]
  exact refused

/-- In a run where a marker only ever replaces the selected source, the receipt that completion
recorded is accepted by the history reader in every later state. -/
theorem retired_source_accepted {events : List Event} {receipt : SourceRetirement}
    (admitted : admitUpload request r id attempt allocation admission expiresAt = .ok row)
    (quiet : Along (step enc request) (Quiet enc request) (System.initial bucket row) events)
    (recorded : (run (step enc request) (System.initial bucket row) events).row.file.sourceRetirement =
      some receipt) :
    validateRetired enc request (run (step enc request) (System.initial bucket row) events).row =
      .ok row.file.plan := by
  have kept (s : System bucket) (event : Event) (known : SystemInv enc request s ∧ Unselected enc s)
      (met : Quiet enc request s event) :
      SystemInv enc request (step enc request s event) ∧ Unselected enc (step enc request s event) :=
    ⟨(step_inv known.1 event).1, step_unselected known.1 known.2 event met⟩
  have reached := run_guarded kept (admitted_inv bucket enc admitted) quiet
  rw [recorded_source_accepted_iff admitted recorded]
  cases chosen : (run (step enc request) (System.initial bucket row) events).row.file.sourceRef with
  | some selected => exact .inl rfl
  | none => exact .inr ((reached.2 chosen).recorded receipt recorded)

end Admitted
end Reachable

/-! ### A two-byte upload in an unversioned bucket -/

namespace Sample

/-- One key of an unversioned bucket that tags an object by its kind. -/
def memory : Bucket where
  State := Option Object
  empty := none
  get s _ := s
  put s _ body :=
    if body.mode.Permits s then
      some
        { size := body.bytes.length, range := (0, body.bytes.length), version := none
          eTag := some (if body.attributes.lookup markerKey = none then "source" else "marker")
          attributes := body.attributes, bytes := body.bytes }
    else s
  get_empty _ := rfl
  put_effect s _ body := by
    split
    next permitted => exact .inr ⟨permitted, _, rfl, rfl, rfl⟩
    · exact .inl rfl

def command : UploadCommand where
  projectId := ⟨1⟩
  sandboxId := ⟨2⟩
  input := { path := ['a'], size := 2, sha256 := 2, mode := 0o644 }

def allocation : Allocation :=
  { id := ⟨3⟩, projectId := ⟨1⟩, sandboxId := ⟨2⟩, hostId := ⟨4⟩, generation := 1, supervisorEpoch := 1 }

def admission : Time := seconds 1000
def deadline : Time := seconds 1600
def plan : SourcePlan := admittedPlan command ⟨5⟩ ⟨6⟩ allocation admission deadline
def source : SourceRef := { plan, etag := "source", objectVersion := none }
def marker : Marker := { version := 1, planSha256 := "plan", previous := some source }

def receipt : SourceRetirement :=
  { version := 1, planSha256 := "plan", previous := some source, markerEtag := "marker",
    markerVersion := none }

def encoding : Encoding where
  plan _ := "plan"
  sha256 bytes := BitVec.ofNat 256 bytes.length
  marker := Codec.only marker [1]
  roundTrips := Codec.only_roundTrips

def request : SandboxId → UploadInput → BitVec 256 := fun _ _ => 0

def row : UploadRow := admittedRow request command ⟨5⟩ allocation plan deadline

theorem admitted : admitUpload request command ⟨5⟩ ⟨6⟩ allocation admission none = .ok row := by
  decide +kernel

def reply : Reply :=
  { failure := none, removal := { fetched := .error .other, deleted := .ok (), head := .error .other } }

def late : Time := seconds 4600
def cleanup : SourceCleanupClaim := { operationId := ⟨5⟩, revision := 1 }

/-- The bytes reach the bucket within the write window. -/
def stored : List Event := [.upload [7, 7] 1000001, .land 0]

/-- The controller accepts the stored source before it is frozen. -/
def accepted : List Event :=
  [.claimUpload 60 (admission + 1), .acceptUploadSource { operationId := ⟨5⟩, revision := 1 } source (admission + 2)]

/-- One worker freezes the upload, seals the key and has its receipt recorded. -/
def cleaned : List Event :=
  [.claimFileSourceCleanup 120 late, .retire cleanup late, .advance 0 reply, .land 1,
    .advance 0 reply, .advance 0 reply, .advance 0 reply, .advance 0 reply,
    .completeFileSourceCleanup cleanup 0 (late + 1)]

def start : System memory := System.initial memory row

/-- An upload that was stored but never accepted is sealed and its receipt recorded, and the
history reader refuses that receipt. -/
theorem orphan_receipt_refused :
    (run (step encoding request) start (stored ++ cleaned)).row.file.sourceRetirement = some receipt ∧
      validateRetired encoding request (run (step encoding request) start (stored ++ cleaned)).row =
        .error .invalidData := by
  decide +kernel

theorem accepted_source_accepted :
    validateRetired encoding request
        (run (step encoding request) start (stored ++ accepted ++ cleaned)).row = .ok plan := by
  have quiet : Along (step encoding request) (Quiet encoding request) start
      (stored ++ accepted ++ cleaned) := by decide +kernel
  have recorded : (run (step encoding request) start
      (stored ++ accepted ++ cleaned)).row.file.sourceRetirement = some receipt := by decide +kernel
  exact retired_source_accepted admitted quiet recorded

end Sample
end HudsonSandbox.Store
