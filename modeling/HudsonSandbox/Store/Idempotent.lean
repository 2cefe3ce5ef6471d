import HudsonSandbox.Store.Admissions

/-!
# One operation for one key

What every statement of an admission can come to, and from it what holds of any interleaving: a key
has one operation, whoever asks again is answered by it, and a request that is not accepted leaves
nothing behind.
-/

namespace HudsonSandbox.Store
open Checked GuestModel Command FileSources Contention Run

/-! ### What an answer says -/

/-- The digest of the request is the one of a recorded upload, and its content is not. -/
def Request.Collides (r : Request) (row : AdmittedOperation) : Prop :=
  ∃ u, r = .upload u ∧ ∀ plan ∈ row.plan, ¬u.Recorded row plan

/-- The answer that the operation recorded under its key gives to a request. -/
def AdmittedOperation.Resolves (digests : RequestDigests) (row : AdmittedOperation) (r : Request)
    (answer : Answer) : Prop :=
  if row.requestDigest = r.digest digests then
    answer = .accepted row.id ∨ answer = .responseExpired row.id ∨
      r.Collides row ∧ (answer = .failed .query ∨ answer = .failed .invalidData)
  else answer = .conflict

/-- The answers that a request may get before the key is looked at. -/
def Request.Barred (enc : CommandEncoding) (r : Request) (answer : Answer) : Prop :=
  match r with
  | .create _ | .destroy _ => False
  | .execute r => answer = .unauthorized ∨ answer = .invalid ∧ r.command.validate enc ≠ .ok ()
  | .cancel _ => answer = .unauthorized
  | .upload r => answer = .unauthorized ∨ answer = .invalid ∧ ∃ id, ¬(r.input.forOperation id).Valid

/-- The operation of a request. -/
structure Request.Writes (digests : RequestDigests) (r : Request) (row : AdmittedOperation) : Prop where
  key : row.key = r.key
  digest : row.requestDigest = r.digest digests
  version : row.digestVersion = DIGEST_VERSION

/-- The plan of an upload goes with its operation. -/
def Request.Planned (r : Request) (row : AdmittedOperation) (plan : Option SourcePlan) : Prop :=
  ∀ u, r = .upload u → ∃ known, plan = some known ∧ u.Recorded row known

/-- The whole set of rows that a request writes: a create its sandbox, an upload its plan. -/
def Request.Complete (r : Request) (row : AdmittedOperation) (sandboxes : List SandboxId) : Prop :=
  (sandboxes = if r.creates then [row.sandboxId] else []) ∧ r.Planned row row.plan

/-! ### The invariant -/

def Serving.session (p : Serving) : Session ProjectId AdmittedOperation where
  scope := p.request.key.projectId
  hold := p.hold
  pending := p.stage.pending

def Database.sessions (s : Database) (i : RequestId) : Option (Session ProjectId AdmittedOperation) :=
  (s.requests.lookup i).map Serving.session

def Stage.Sound (digests : RequestDigests) (rows : List AdmittedOperation) (r : Request) (lost : Bool) :
    Stage → Prop
  | .begun | .absent | .discovered _ => lost = false
  | .sharing _ => lost = false ∧ r.creates = true
  | .locked _ => lost = false ∧ r.creates = false
  | .missed _ => lost = false ∧ r.creates = false ∧ ∀ row ∈ rows, row.key ≠ r.key
  | .inserted row plan => lost = false ∧ r.Writes digests row ∧ r.Planned row plan
  | .completed row => lost = false ∧ r.Writes digests row ∧ r.Planned row row.plan ∧ r.creates = false
  | .violated => r.creates = true ∧ ∃ row ∈ rows, row.key = r.key
  | .finished answer =>
    (lost = true → r.creates = true ∧ ∃ row ∈ rows, row.key = r.key ∧ row.Resolves digests r answer) ∧
      (∀ id, answer = .accepted id →
        ∃ row ∈ rows, row.id = id ∧ row.key = r.key ∧ row.requestDigest = r.digest digests) ∧
      answer ≠ .corrupt

structure Database.Inv (digests : RequestDigests) (s : Database) : Prop where
  isolated : Isolated RequestKey.projectId AdmittedOperation.key s.operations s.sessions
  version : ∀ row ∈ s.operations, row.digestVersion = DIGEST_VERSION
  sound : ∀ i p, s.requests.lookup i = some p → p.stage.Sound digests s.operations p.request p.lost

section Requests
variable {enc : CommandEncoding} {digests : RequestDigests} {s : Database} {i j : RequestId} {p : Serving}
  {v : View} {row : AdmittedOperation} {r : Request} {answer : Answer}

theorem lookup_of_mem (inv : s.Inv digests) (here : row ∈ s.operations) : s.lookup row.key = some row := by
  cases found : s.lookup row.key with
  | none =>
    have absent := List.find?_eq_none.mp found row here
    simp at absent
  | some other =>
    have keyed : other.key = row.key := by simpa using List.find?_some found
    rw [inv.isolated.same (List.mem_of_find?_eq_some found) here keyed]

theorem mem_of_lookup {key : RequestKey} (found : s.lookup key = some row) :
    row ∈ s.operations ∧ row.key = key :=
  ⟨List.mem_of_find?_eq_some found, by simpa using List.find?_some found⟩

theorem lookup_absent {key : RequestKey} (absent : s.lookup key = none) :
    ∀ row ∈ s.operations, row.key ≠ key := by
  intro row here
  simpa using List.find?_eq_none.mp absent row here

theorem existing_resolves {digest : Digest} (version : row.digestVersion = DIGEST_VERSION)
    (same : r.digest digests = digest) : row.Resolves digests r (row.existing digest v) := by
  subst same
  unfold AdmittedOperation.Resolves AdmittedOperation.existing
  by_cases matching : row.requestDigest = r.digest digests
  · rw [if_pos matching, if_neg (by simp [matching, version])]
    by_cases expired : v.ResponseExpired
    · rw [if_pos expired]
      exact .inr (.inl rfl)
    · rw [if_neg expired]
      exact .inl rfl
  · rw [if_neg matching, if_pos (.inl matching)]

theorem upload_resolves {u : UploadRequest} (version : row.digestVersion = DIGEST_VERSION) :
    row.Resolves digests (.upload u) (u.existing digests row v) := by
  unfold AdmittedOperation.Resolves UploadRequest.existing
  by_cases matching : row.requestDigest = digests.upload u.sandboxId u.input
  · have same : row.requestDigest = (Request.upload u).digest digests := matching
    rw [if_pos same, if_neg (by simp [matching, version])]
    by_cases expired : v.ResponseExpired
    · rw [if_pos expired]
      exact .inr (.inl rfl)
    · rw [if_neg expired]
      cases planned : row.plan with
      | none =>
        refine .inr (.inr ⟨⟨u, rfl, ?_⟩, .inl rfl⟩)
        intro plan known
        rw [planned] at known
        cases known
      | some plan =>
        dsimp only
        by_cases recorded : u.Recorded row plan
        · rw [if_pos recorded]
          exact .inl rfl
        · rw [if_neg recorded]
          refine .inr (.inr ⟨⟨u, rfl, ?_⟩, .inr rfl⟩)
          intro other known
          rw [planned] at known
          cases known
          exact recorded
  · have other : ¬row.requestDigest = (Request.upload u).digest digests := matching
    rw [if_neg other, if_pos (.inl matching)]

/-- A record answers with no other identity than its own. -/
theorem AdmittedOperation.Resolves.accepted (resolves : row.Resolves digests r answer) {id : OperationId}
    (accepts : answer = .accepted id) : row.id = id ∧ row.requestDigest = r.digest digests := by
  unfold AdmittedOperation.Resolves at resolves
  split at resolves
  next same =>
    subst accepts
    rcases resolves with found | expired | ⟨_, failed | failed⟩
    · cases found
      exact ⟨rfl, same⟩
    · cases expired
    · cases failed
    · cases failed
  · rw [resolves] at accepts
    cases accepts

theorem AdmittedOperation.Resolves.uncorrupt (resolves : row.Resolves digests r answer) : answer ≠ .corrupt := by
  unfold AdmittedOperation.Resolves at resolves
  split at resolves
  · intro corrupt
    subst corrupt
    rcases resolves with found | expired | ⟨_, failed | failed⟩
    · cases found
    · cases expired
    · cases failed
    · cases failed
  · rw [resolves]
    decide

theorem sound_resolved {lost : Bool} (here : row ∈ s.operations) (keyed : row.key = r.key)
    (resolves : row.Resolves digests r answer) (loser : lost = true → r.creates = true) :
    (Stage.finished answer).Sound digests s.operations r lost := by
  refine ⟨fun raced => ⟨loser raced, row, here, keyed, resolves⟩, ?_, resolves.uncorrupt⟩
  intro id accepts
  obtain ⟨same, digest⟩ := resolves.accepted accepts
  exact ⟨row, here, same, keyed, digest⟩

/-- A refusal before the race says nothing of an operation. -/
theorem sound_refused {rows : List AdmittedOperation} (silent : ∀ id, answer ≠ .accepted id)
    (known : answer ≠ .corrupt) : (Stage.finished answer).Sound digests rows r false := by
  refine ⟨?_, ?_, known⟩
  · intro raced
    cases raced
  · intro id accepts
    exact absurd accepts (silent id)

/-! ### What a statement comes to -/

/-- Everything that a statement of a request may do to the database. -/
inductive Serving.Leads (digests : RequestDigests) (s : Database) (i : RequestId) (p : Serving) : Move → Prop where
  | wait : Leads digests s i p .wait
  | next (stage : Stage) (hold : Serving.hold { p with stage } = p.hold)
      (pending : stage.pending = p.stage.pending)
      (sound : stage.Sound digests s.operations p.request p.lost) : Leads digests s i p (.next stage)
  | lock (stage : Stage) (clean : stage.pending = none)
      (free : ∀ j q, j ≠ i → s.requests.lookup j = some q →
        q.request.key.projectId = p.request.key.projectId →
        (Serving.hold { p with stage } = .exclusive → q.hold = .none) ∧
          (q.hold = .exclusive → Serving.hold { p with stage } = .none))
      (sound : stage.Sound digests s.operations p.request p.lost) : Leads digests s i p (.next stage)
  | insert (row : AdmittedOperation) (plan : Option SourcePlan) (held : p.hold ≠ .none)
      (hold : Serving.hold { p with stage := .inserted row plan } = p.hold)
      (fresh : ∀ other ∈ s.operations, other.key ≠ row.key)
      (free : ∀ j q other, j ≠ i → s.requests.lookup j = some q → q.stage.pending = some other →
        other.key ≠ row.key)
      (sound : (Stage.inserted row plan).Sound digests s.operations p.request p.lost) :
      Leads digests s i p (.next (.inserted row plan))
  | complete (row row' : AdmittedOperation) (pending : p.stage.pending = some row) (keyed : row'.key = row.key)
      (hold : Serving.hold { p with stage := .completed row' } = p.hold)
      (sound : (Stage.completed row').Sound digests s.operations p.request p.lost) :
      Leads digests s i p (.next (.completed row'))
  | violated (sound : Stage.violated.Sound digests s.operations p.request true) : Leads digests s i p .violated
  | done (answer : Answer)
      (sound : (Stage.finished answer).Sound digests s.operations p.request p.lost) :
      Leads digests s i p (.done answer)
  | commit (row : AdmittedOperation) (sandboxes : List SandboxId) (early : p.lost = false)
      (pending : p.stage.pending = some row) (writes : p.request.Writes digests row)
      (complete : p.request.Complete row sandboxes) : Leads digests s i p (.commit row sandboxes)

theorem Database.Free.of_lookup {project : ProjectId} {bars : Hold → Prop} (free : s.Free i project bars)
    {q : Serving} (different : j ≠ i) (found : s.requests.lookup j = some q)
    (same : q.request.key.projectId = project) : ¬bars q.hold :=
  free ⟨j, q⟩ (AList.mem_lookup_iff.mp (Option.mem_def.mpr found)) different same

theorem Serving.Leads.lockProject {granted : Move}
    (leads : s.Free i p.request.key.projectId (· ≠ .none) → p.Leads digests s i granted) :
    p.Leads digests s i (s.lockProject i p.request.key.projectId granted) := by
  unfold Database.lockProject
  by_cases free : s.Free i p.request.key.projectId (· ≠ .none)
  · rw [if_pos free]
    exact leads free
  · rw [if_neg free]
    exact .wait

/-- A granted lock of the project bars every other hold. -/
theorem Serving.Leads.locked (early : p.lost = false) (other : p.request.creates = false)
    (active : Option OperationId) (free : s.Free i p.request.key.projectId (· ≠ .none)) :
    p.Leads digests s i (.next (.locked active)) := by
  refine .lock (.locked active) rfl ?_ ⟨early, other⟩
  intro j q different found same
  have unheld : q.hold = .none := not_not.mp (free.of_lookup different found same)
  refine ⟨fun _ => unheld, fun exclusive => ?_⟩
  rw [unheld] at exclusive
  cases exclusive

theorem Serving.Leads.resolve {existing : AdmittedOperation → Answer} {absent : Move}
    (resolves : ∀ row ∈ s.operations, row.key = p.request.key →
      row.Resolves digests p.request (existing row))
    (loser : p.lost = true → p.request.creates = true)
    (leads : (∀ row ∈ s.operations, row.key ≠ p.request.key) → p.Leads digests s i absent) :
    p.Leads digests s i (s.resolve p.request.key existing absent) := by
  unfold Database.resolve
  cases found : s.lookup p.request.key with
  | some row =>
    obtain ⟨here, keyed⟩ := mem_of_lookup found
    exact .done _ (sound_resolved here keyed (resolves row here keyed) loser)
  | none => exact leads (lookup_absent found)

/-- An insertion that is not the first of its key waits or loses the race. -/
theorem Serving.Leads.insertOperation {plan : Option SourcePlan} (held : p.hold ≠ .none)
    (hold : Serving.hold { p with stage := .inserted row plan } = p.hold) (early : p.lost = false)
    (writes : p.request.Writes digests row) (planned : p.request.Planned row plan)
    (races : (∃ other ∈ s.operations, other.key = p.request.key) → p.request.creates = true) :
    p.Leads digests s i (s.insertOperation i row plan) := by
  unfold Database.insertOperation
  by_cases taken : ∃ other ∈ s.operations, other.key = row.key
  · rw [if_pos taken]
    rw [writes.key] at taken
    exact .violated ⟨races taken, taken⟩
  rw [if_neg taken]
  by_cases waits : ∃ entry ∈ s.requests.entries, entry.1 ≠ i ∧
      ∃ other ∈ entry.2.stage.pending, other.key = row.key
  · rw [if_pos waits]
    exact .wait
  · rw [if_neg waits]
    refine .insert row plan held hold ?_ ?_ ⟨early, writes, planned⟩
    · exact fun other here keyed => taken ⟨other, here, keyed⟩
    · intro j q other different found pending keyed
      refine waits ⟨⟨j, q⟩, AList.mem_lookup_iff.mp (Option.mem_def.mpr found), different, other, pending, keyed⟩

/-- An answer that says nothing of a recorded operation. -/
def Answer.Refuses : Answer → Prop
  | .accepted _ | .corrupt => False
  | _ => True

theorem Serving.Leads.refused (early : p.lost = false) (refuses : answer.Refuses) :
    p.Leads digests s i (.done answer) := by
  refine .done answer ?_
  rw [early]
  apply sound_refused
  · intro id accepts
    rw [accepts] at refuses
    exact refuses
  · intro corrupt
    rw [corrupt] at refuses
    exact refuses

theorem idle_raises (holder : Option OperationId) : Raises Answer.Refuses (idle holder) := by
  constructor
  intro error failed
  cases holder with
  | none => cases failed
  | some id =>
    cases failed
    trivial

theorem ExecuteRequest.check_raises (r : ExecuteRequest) (v : View) :
    Raises Answer.Refuses (r.check v) := by
  unfold ExecuteRequest.check
  apply Raises.bind (.okOr trivial)
  intro sandbox
  apply Raises.seq (.ensure trivial)
  apply Raises.seq (.ensure trivial)
  apply Raises.seq (idle_raises _)
  apply Raises.seq (.ensure trivial)
  apply Raises.seq (.ensure trivial)
  apply Raises.seq (idle_raises _)
  apply Raises.seq (.ensure trivial)
  apply Raises.seq (.ensure trivial)
  apply Raises.seq (.ensure trivial)
  apply Raises.seq (.ensure trivial)
  exact .ensure trivial

theorem CancelCommand.check_raises (v : View) : Raises Answer.Refuses (CancelCommand.check v) := by
  unfold CancelCommand.check
  apply Raises.bind (.okOr trivial)
  intro target
  apply Raises.seq (.ensure trivial)
  apply Raises.seq (.ensure trivial)
  apply Raises.seq (idle_raises _)
  apply Raises.seq (.ensure trivial)
  exact .pure _

theorem busyWith_refuses (current active : Option OperationId) : (busyWith current active).Refuses := by
  unfold busyWith
  cases current.or active <;> trivial

theorem DestroySandbox.check_raises (active : Option OperationId) (v : View) :
    Raises Answer.Refuses (DestroySandbox.check active v) := by
  unfold DestroySandbox.check
  apply Raises.bind (.okOr trivial)
  intro sandbox
  apply Raises.seq (.ensure (busyWith_refuses _ _))
  apply Raises.seq (.ensure (busyWith_refuses _ _))
  apply Raises.seq (.ensure trivial)
  exact .ensure trivial

theorem UploadRequest.check_raises (r : UploadRequest) (v : View) : Raises Answer.Refuses (r.check v) := by
  unfold UploadRequest.check
  apply Raises.bind (.okOr trivial)
  intro sandbox
  apply Raises.seq (.ensure trivial)
  apply Raises.seq (.ensure trivial)
  apply Raises.seq (.ensure trivial)
  apply Raises.seq (.ensure trivial)
  apply Raises.seq (.ensure trivial)
  apply Raises.seq (.ensure trivial)
  refine Raises.seq ?_ (.pure _)
  constructor
  intro error failed
  cases valid : SourcePlan.validate _ with
  | ok u =>
    rw [valid] at failed
    cases failed
  | error other =>
    rw [valid] at failed
    cases failed
    trivial

/-- The plan that an admitted upload is stored with is its own. -/
theorem UploadRequest.check_recorded {r : UploadRequest} {plan : SourcePlan} (h : r.check v = .ok plan) :
    r.Recorded (r.row digests v.newOperation) plan := by
  unfold UploadRequest.check at h
  obtain ⟨sandbox, _, h⟩ := bind_ok.mp h
  obtain ⟨_, h⟩ := seq_ok.mp h
  obtain ⟨_, h⟩ := seq_ok.mp h
  obtain ⟨_, h⟩ := seq_ok.mp h
  obtain ⟨_, h⟩ := seq_ok.mp h
  obtain ⟨_, h⟩ := seq_ok.mp h
  obtain ⟨_, h⟩ := seq_ok.mp h
  obtain ⟨valid, h⟩ := seq_ok.mp h
  rw [← pure_ok.mp h]
  exact ⟨mapError_ok.mp valid, rfl, rfl, rfl, rfl⟩

/-! ### The five admissions -/

theorem Database.Inv.found (inv : s.Inv digests) {digest : Digest} (same : r.digest digests = digest) :
    ∀ row ∈ s.operations, row.key = r.key → row.Resolves digests r (row.existing digest v) :=
  fun row here _ => existing_resolves (inv.version row here) same

/-- A fresh row is complete where no plan goes with it. -/
theorem Request.Planned.none (other : ∀ u, r ≠ .upload u) (plan : Option SourcePlan) : r.Planned row plan :=
  fun u same => absurd same (other u)

theorem CreateSandbox.leads {r : CreateSandbox} {stage : Stage} {lost : Bool} (inv : s.Inv digests)
    (sound : stage.Sound digests s.operations (.create r) lost) :
    Serving.Leads digests s i { request := .create r, stage, lost } (r.step s i stage v) := by
  have other : ∀ u, Request.create r ≠ .upload u := by
    intro u same
    cases same
  cases stage with
  | begun =>
    have early : lost = false := sound
    apply Serving.Leads.resolve (inv.found rfl)
    · intro raced
      rw [early] at raced
      cases raced
    · intro absent
      exact .next .absent rfl rfl early
  | absent =>
    have early : lost = false := sound
    unfold CreateSandbox.step
    dsimp only
    split
    · exact .refused early trivial
    split
    · exact .refused early trivial
    unfold Database.insertSandbox
    by_cases free : s.Free i r.key.projectId (· = .exclusive)
    · rw [if_pos free]
      refine .lock (.sharing v.newSandbox) rfl ?_ ⟨early, rfl⟩
      intro j q different found same
      have unlocked := free.of_lookup different found same
      constructor
      · intro exclusive
        cases exclusive
      · intro exclusive
        exact absurd exclusive unlocked
    · rw [if_neg free]
      exact .wait
  | sharing sandbox =>
    apply Serving.Leads.insertOperation
    · show Hold.share ≠ .none
      decide
    · rfl
    · exact sound.1
    · exact ⟨rfl, rfl, rfl⟩
    · exact .none other _
    · intro _
      rfl
  | inserted row plan => exact .commit row _ sound.1 rfl sound.2.1 ⟨rfl, .none other _⟩
  | violated =>
    apply Serving.Leads.resolve (inv.found rfl)
    · intro _
      rfl
    · intro absent
      obtain ⟨_, row, here, keyed⟩ := sound
      exact absurd keyed (absent row here)
  | discovered active | locked active | missed active | completed row | finished answer => exact .wait

/-- The insertion of a request that holds its project exclusively and found nothing under its key. -/
theorem Serving.Leads.entering {stage : Stage} {plan : Option SourcePlan} {lost : Bool} {active : Option OperationId}
    (missed : stage = .missed active) (sound : stage.Sound digests s.operations r lost)
    (writes : r.Writes digests row) (planned : r.Planned row plan) :
    Serving.Leads digests s i { request := r, stage, lost } (s.insertOperation i row plan) := by
  subst missed
  obtain ⟨early, other, absent⟩ := sound
  apply Serving.Leads.insertOperation
  · show Hold.exclusive ≠ .none
    decide
  · show (if r.creates then Hold.share else .exclusive) = .exclusive
    rw [other]
    rfl
  · exact early
  · exact writes
  · exact planned
  · intro taken
    obtain ⟨row, here, keyed⟩ := taken
    exact absurd keyed (absent row here)

/-- What is found under the lock of the project, or that nothing is. -/
theorem Serving.Leads.relookup {stage : Stage} {lost : Bool} {active next : Option OperationId}
    {existing : AdmittedOperation → Answer} (locked : stage = .locked active)
    (sound : stage.Sound digests s.operations r lost)
    (resolves : ∀ row ∈ s.operations, row.key = r.key → row.Resolves digests r (existing row)) :
    Serving.Leads digests s i { request := r, stage, lost } (s.resolve r.key existing (.next (.missed next))) := by
  subst locked
  obtain ⟨early, other⟩ := sound
  apply Serving.Leads.resolve resolves
  · intro raced
    have raced : lost = true := raced
    rw [early] at raced
    cases raced
  · intro absent
    exact .next (.missed next) rfl rfl ⟨early, other, absent⟩

/-- The lock of the project, with the credential read under it. -/
theorem Serving.Leads.authorize {lost authorized : Bool} (early : lost = false) (other : r.creates = false) :
    Serving.Leads digests s i { request := r, stage := .begun, lost }
      (s.lockProject i r.key.projectId (if authorized then .next (.locked none) else .done .unauthorized)) := by
  apply Serving.Leads.lockProject
  intro free
  cases authorized with
  | true => exact .locked early other none free
  | false => exact .refused early trivial

theorem ExecuteRequest.leads {r : ExecuteRequest} {stage : Stage} {lost : Bool} (inv : s.Inv digests)
    (sound : stage.Sound digests s.operations (.execute r) lost) :
    Serving.Leads digests s i { request := .execute r, stage, lost } (r.step enc digests s i stage v) := by
  have other : ∀ u, Request.execute r ≠ .upload u := by
    intro u same
    cases same
  cases stage with
  | begun =>
    have early : lost = false := sound
    unfold ExecuteRequest.step
    dsimp only
    split
    · exact .refused early trivial
    · exact @Serving.Leads.authorize digests s i (.execute r) lost v.authorized early rfl
  | locked active => exact .relookup rfl sound (inv.found rfl)
  | missed active =>
    unfold ExecuteRequest.step
    dsimp only
    cases checked : r.check v with
    | error answer => exact .refused sound.1 ((r.check_raises v).kind answer checked)
    | ok u => exact .entering rfl sound ⟨rfl, rfl, rfl⟩ (.none other _)
  | inserted row plan => exact .commit row _ sound.1 rfl sound.2.1 ⟨rfl, .none other _⟩
  | violated => cases sound.1
  | absent | discovered active | sharing sandbox | completed row | finished answer => exact .wait

theorem CancelCommand.leads {r : CancelCommand} {stage : Stage} {lost : Bool} (inv : s.Inv digests)
    (sound : stage.Sound digests s.operations (.cancel r) lost) :
    Serving.Leads digests s i { request := .cancel r, stage, lost } (r.step digests s i lost stage v) := by
  have other : ∀ u, Request.cancel r ≠ .upload u := by
    intro u same
    cases same
  cases stage with
  | begun => exact @Serving.Leads.authorize digests s i (.cancel r) lost v.authorized sound rfl
  | locked active => exact .relookup rfl sound (inv.found rfl)
  | missed active =>
    unfold CancelCommand.step
    dsimp only
    cases checked : CancelCommand.check v with
    | error answer => exact .refused sound.1 ((CancelCommand.check_raises v).kind answer checked)
    | ok sandbox =>
      have admits : Serving.Leads digests s i { request := .cancel r, stage := .missed active, lost }
          (s.insertOperation i (r.row digests v.newOperation sandbox) none) :=
        .entering rfl sound ⟨rfl, rfl, rfl⟩ (.none other _)
      dsimp only
      cases moved : s.insertOperation i (r.row digests v.newOperation sandbox) none with
      | violated =>
        -- the lock leaves nobody to lose the race to
        rw [moved] at admits
        cases admits with
        | violated raced => cases raced.1
      | _ =>
        rw [moved] at admits
        exact admits
  | inserted row plan => exact .commit row _ sound.1 rfl sound.2.1 ⟨rfl, .none other _⟩
  | violated => cases sound.1
  | absent | discovered active | sharing sandbox | completed row | finished answer => exact .wait

theorem DestroySandbox.leads {r : DestroySandbox} {stage : Stage} {lost : Bool} (inv : s.Inv digests)
    (sound : stage.Sound digests s.operations (.destroy r) lost) :
    Serving.Leads digests s i { request := .destroy r, stage, lost } (r.step s i stage v) := by
  have other : ∀ u, Request.destroy r ≠ .upload u := by
    intro u same
    cases same
  cases stage with
  | begun =>
    have early : lost = false := sound
    apply Serving.Leads.resolve (inv.found rfl)
    · intro raced
      rw [early] at raced
      cases raced
    · intro absent
      exact .next .absent rfl rfl early
  | absent =>
    unfold DestroySandbox.step
    dsimp only
    cases v.sandbox with
    | none => exact .refused sound trivial
    | some sandbox => exact .next (.discovered _) rfl rfl sound
  | discovered active =>
    apply @Serving.Leads.lockProject digests s i { request := .destroy r, stage := .discovered active, lost }
    intro free
    have early : lost = false := sound
    exact .locked early rfl active free
  | locked active => exact .relookup rfl sound (inv.found rfl)
  | missed active =>
    unfold DestroySandbox.step
    dsimp only
    cases checked : DestroySandbox.check active v with
    | error answer => exact .refused sound.1 ((DestroySandbox.check_raises active v).kind answer checked)
    | ok u => exact .entering rfl sound ⟨rfl, rfl, rfl⟩ (.none other _)
  | inserted row plan => exact .commit row _ sound.1 rfl sound.2.1 ⟨rfl, .none other _⟩
  | violated => cases sound.1
  | sharing sandbox | completed row | finished answer => exact .wait

theorem UploadRequest.leads {r : UploadRequest} {stage : Stage} {lost : Bool} (inv : s.Inv digests)
    (sound : stage.Sound digests s.operations (.upload r) lost) :
    Serving.Leads digests s i { request := .upload r, stage, lost } (r.step digests s i stage v) := by
  cases stage with
  | begun =>
    have early : lost = false := sound
    unfold UploadRequest.step
    dsimp only
    split
    · exact .refused early trivial
    · exact @Serving.Leads.authorize digests s i (.upload r) lost v.authorized early rfl
  | locked active => exact .relookup rfl sound fun row here _ => upload_resolves (inv.version row here)
  | missed active =>
    unfold UploadRequest.step
    dsimp only
    cases checked : r.check v with
    | error answer => exact .refused sound.1 ((r.check_raises v).kind answer checked)
    | ok plan =>
      apply Serving.Leads.entering rfl sound ⟨rfl, rfl, rfl⟩
      intro u same
      cases same
      exact ⟨plan, rfl, UploadRequest.check_recorded checked⟩
  | inserted row plan =>
    obtain ⟨early, writes, planned⟩ := sound
    refine .complete row { row with plan } rfl rfl rfl ⟨early, ⟨writes.key, writes.digest, writes.version⟩, ?_, rfl⟩
    exact planned
  | completed row =>
    obtain ⟨early, writes, planned, _⟩ := sound
    unfold UploadRequest.step
    dsimp only
    split
    · exact .commit row _ early rfl writes ⟨rfl, planned⟩
    · exact .refused early trivial
  | violated => cases sound.1
  | absent | discovered active | sharing sandbox | finished answer => exact .wait

theorem Serving.leads (inv : s.Inv digests) (sound : p.stage.Sound digests s.operations p.request p.lost) :
    p.Leads digests s i (p.move enc digests s i v) := by
  obtain ⟨request, stage, lost⟩ := p
  cases request with
  | create r => exact r.leads inv sound
  | execute r => exact r.leads inv sound
  | cancel r => exact r.leads inv sound
  | destroy r => exact r.leads inv sound
  | upload r => exact r.leads inv sound

/-! ### One step -/

theorem session_set_own : (s.set i p).sessions i = some p.session := by
  unfold Database.sessions Database.set
  rw [AList.lookup_insert]
  rfl

theorem session_set_other (different : j ≠ i) : (s.set i p).sessions j = s.sessions j := by
  unfold Database.sessions Database.set
  rw [AList.lookup_insert_ne different]

theorem session_of_lookup (found : s.requests.lookup i = some p) : s.sessions i = some p.session := by
  unfold Database.sessions
  rw [found]
  rfl

theorem lookup_of_session {a : Session ProjectId AdmittedOperation} (found : s.sessions i = some a) :
    ∃ p, s.requests.lookup i = some p ∧ p.session = a :=
  Option.map_eq_some_iff.mp found

/-- What a stage says of the recorded operations stays true when another key is recorded. -/
theorem Stage.Sound.append {stage : Stage} {lost : Bool} {rows : List AdmittedOperation}
    (sound : stage.Sound digests rows r lost) (other : ∀ active, stage = .missed active → row.key ≠ r.key) :
    stage.Sound digests (rows ++ [row]) r lost := by
  have more : ∀ {row'}, row' ∈ rows → row' ∈ rows ++ [row] := List.mem_append_left _
  cases stage with
  | missed active =>
    obtain ⟨early, kind, absent⟩ := sound
    refine ⟨early, kind, ?_⟩
    intro row' here
    rcases List.mem_append.mp here with here | there
    · exact absent row' here
    · rw [List.mem_singleton.mp there]
      exact other active rfl
  | violated =>
    obtain ⟨kind, row', here, keyed⟩ := sound
    exact ⟨kind, row', more here, keyed⟩
  | finished answer =>
    obtain ⟨raced, accepted, known⟩ := sound
    refine ⟨?_, ?_, known⟩
    · intro loser
      obtain ⟨kind, row', here, keyed, resolves⟩ := raced loser
      exact ⟨kind, row', more here, keyed, resolves⟩
    · intro id accepts
      obtain ⟨row', here, same, keyed, digest⟩ := accepted id accepts
      exact ⟨row', more here, same, keyed, digest⟩
  | begun | absent | discovered active | sharing sandbox | locked active | inserted row' plan | completed row' =>
    exact sound

theorem Database.Inv.set (inv : s.Inv digests)
    (isolated : Isolated RequestKey.projectId AdmittedOperation.key s.operations (s.set i p).sessions)
    (sound : p.stage.Sound digests s.operations p.request p.lost) : (s.set i p).Inv digests := by
  refine ⟨isolated, inv.version, ?_⟩
  intro j q found
  rcases Maps.lookup_insert_some found with ⟨_, rfl⟩ | ⟨_, before⟩
  · exact sound
  · exact inv.sound j q before

theorem Database.Inv.apply {move : Move} (inv : s.Inv digests) (found : s.requests.lookup i = some p)
    (leads : p.Leads digests s i move) : (s.apply i p move).Inv digests := by
  have others : ∀ {q : Serving} (j : RequestId), j ≠ i → (s.set i q).sessions j = s.sessions j :=
    fun j different => session_set_other different
  have before : s.sessions i = some p.session := session_of_lookup found
  cases leads with
  | wait => exact inv
  | next stage hold pending sound =>
    have same : (s.set i { p with stage }).sessions = s.sessions := by
      funext j
      by_cases mine : j = i
      · subst mine
        rw [session_set_own, before]
        unfold Serving.session
        rw [hold, pending]
      · exact others j mine
    refine inv.set ?_ sound
    rw [same]
    exact inv.isolated
  | lock stage clean free sound =>
    refine inv.set (inv.isolated.lock others session_set_own clean ?_) sound
    intro j b different held same
    obtain ⟨q, known, rfl⟩ := lookup_of_session held
    exact free j q different known same
  | insert row plan held hold fresh free sound =>
    refine inv.set (inv.isolated.insert others before ?_ held ?_ fresh ?_) sound
    · rw [session_set_own]
      unfold Serving.session
      rw [hold]
      rfl
    · exact congrArg RequestKey.projectId sound.2.1.key
    · intro j c other different held pending
      obtain ⟨q, known, rfl⟩ := lookup_of_session held
      exact free j q other different known pending
  | complete row row' pending keyed hold sound =>
    refine inv.set (inv.isolated.insert (r := row') others before ?_ ?_ ?_ ?_ ?_) sound
    · rw [session_set_own]
      unfold Serving.session
      rw [hold]
      rfl
    · exact (inv.isolated.within i _ row before pending).2
    · rw [keyed]
      exact (inv.isolated.within i _ row before pending).1
    · rw [keyed]
      exact inv.isolated.fresh i _ row before pending
    · intro j c other different held inserted
      rw [keyed]
      exact inv.isolated.apart j i c _ other row held before different inserted pending
  | violated sound => exact inv.set (inv.isolated.release others session_set_own rfl rfl) sound
  | done answer sound => exact inv.set (inv.isolated.release others session_set_own rfl rfl) sound
  | commit row sandboxes early pending writes complete =>
    refine ⟨inv.isolated.commit others before pending session_set_own rfl rfl, ?_, ?_⟩
    · intro row' here
      rcases List.mem_append.mp here with here | there
      · exact inv.version row' here
      · rw [List.mem_singleton.mp there]
        exact writes.version
    · intro j q known
      rcases Maps.lookup_insert_some known with ⟨_, rfl⟩ | ⟨different, known⟩
      · have here : row ∈ s.operations ++ [row] := List.mem_append_right _ (List.mem_singleton_self row)
        refine ⟨?_, ?_, ?_⟩
        · intro raced
          rw [early] at raced
          cases raced
        · intro id accepts
          cases accepts
          exact ⟨row, here, rfl, writes.key, writes.digest⟩
        · intro corrupt
          cases corrupt
      · refine (inv.sound j q known).append ?_
        -- whoever looked under the lock of its project keeps others from committing in it
        intro active missed keyed
        have exclusive : q.session.hold = .exclusive := by
          show q.hold = .exclusive
          unfold Serving.hold
          rw [missed]
        have outside := inv.isolated.outside (session_of_lookup known) exclusive before (Ne.symm different) pending
        exact outside (congrArg RequestKey.projectId keyed)

theorem admissionStep_inv (s : Database) (event : AdmissionEvent) (inv : s.Inv digests) :
    (admissionStep enc digests s event).Inv digests := by
  cases event with
  | begin i r =>
    show Database.Inv digests (if i ∈ s.requests then s else s.set i _)
    by_cases known : i ∈ s.requests
    · rw [if_pos known]
      exact inv
    · rw [if_neg known]
      refine inv.set (inv.isolated.release ?_ session_set_own rfl rfl) rfl
      exact fun j different => session_set_other different
  | statement i v =>
    rw [admissionStep]
    cases found : s.requests.lookup i with
    | none => exact inv
    | some p => exact inv.apply found (Serving.leads inv (inv.sound i p found))

theorem Database.Inv.empty : Database.Inv digests {} := by
  refine ⟨.empty, ?_, ?_⟩
  · intro row here
    cases here
  · intro i p found
    cases found

/-! ### Requests that come later -/

/-- A request that began after the operation of its key was recorded: it is on its way to the lookup,
or was answered. -/
def Serving.Answered (enc : CommandEncoding) (digests : RequestDigests) (row : AdmittedOperation)
    (p : Serving) : Prop :=
  p.stage = .begun ∨ (∃ active, p.stage = .locked active) ∨ ∃ answer, p.stage = .finished answer ∧
    (p.request.Barred enc answer ∨ row.Resolves digests p.request answer)

/-- The statements of such a request. -/
def Move.Answers (enc : CommandEncoding) (digests : RequestDigests) (row : AdmittedOperation) (r : Request) :
    Move → Prop
  | .wait => True
  | .next stage => ∃ active, stage = .locked active
  | .done answer => r.Barred enc answer ∨ row.Resolves digests r answer
  | .violated | .commit _ _ => False

theorem resolve_answers {existing : AdmittedOperation → Answer} {absent : Move} (inv : s.Inv digests)
    (here : row ∈ s.operations) (keyed : r.key = row.key)
    (resolves : ∀ row ∈ s.operations, row.key = r.key → row.Resolves digests r (existing row)) :
    (s.resolve r.key existing absent).Answers enc digests row r := by
  unfold Database.resolve
  rw [keyed, lookup_of_mem inv here]
  exact .inr (resolves row here keyed.symm)

theorem lock_answers {project : ProjectId} {granted : Move} (answers : granted.Answers enc digests row r) :
    (s.lockProject i project granted).Answers enc digests row r := by
  unfold Database.lockProject
  split
  · exact answers
  · trivial

theorem authorize_answers {project : ProjectId} {authorized : Bool} (barred : r.Barred enc .unauthorized) :
    (s.lockProject i project (if authorized then .next (.locked none) else .done .unauthorized)).Answers enc
      digests row r := by
  apply lock_answers
  cases authorized with
  | true => exact ⟨none, rfl⟩
  | false => exact .inl barred

/-- A finished request has no statement left. -/
theorem finished_waits (finished : p.stage = .finished answer) : p.move enc digests s i v = .wait := by
  obtain ⟨request, stage, lost⟩ := p
  cases finished
  cases request <;> rfl

theorem Serving.answers (inv : s.Inv digests) (here : row ∈ s.operations) (keyed : p.request.key = row.key)
    (answered : p.Answered enc digests row) :
    (p.move enc digests s i v).Answers enc digests row p.request := by
  obtain ⟨request, stage, lost⟩ := p
  rcases answered with begun | ⟨active, locked⟩ | ⟨answer, finished, _⟩
  · cases begun
    cases request with
    | create r => exact resolve_answers inv here keyed (inv.found rfl)
    | destroy r => exact resolve_answers inv here keyed (inv.found rfl)
    | cancel r => exact authorize_answers rfl
    | execute r =>
      show (ExecuteRequest.step enc digests s i r .begun v).Answers enc digests row (.execute r)
      unfold ExecuteRequest.step
      dsimp only
      split
      next invalid => exact .inl (.inr ⟨rfl, invalid⟩)
      · exact authorize_answers (.inl rfl)
    | upload r =>
      show (UploadRequest.step digests s i r .begun v).Answers enc digests row (.upload r)
      unfold UploadRequest.step
      dsimp only
      split
      next invalid => exact .inl (.inr ⟨rfl, v.newOperation, invalid⟩)
      · exact authorize_answers (.inl rfl)
  · cases locked
    cases request with
    | create r => trivial
    | destroy r => exact resolve_answers inv here keyed (inv.found rfl)
    | cancel r => exact resolve_answers inv here keyed (inv.found rfl)
    | execute r => exact resolve_answers inv here keyed (inv.found rfl)
    | upload r => exact resolve_answers inv here keyed fun row here _ => upload_resolves (inv.version row here)
  · rw [finished_waits finished]
    trivial

/-- The operation is recorded, and the request is one that came later. -/
structure Sees (enc : CommandEncoding) (digests : RequestDigests) (row : AdmittedOperation) (i : RequestId)
    (s : Database) : Prop where
  inv : s.Inv digests
  here : row ∈ s.operations
  answered : ∀ p, s.requests.lookup i = some p → p.request.key = row.key → p.Answered enc digests row

theorem apply_operations {move : Move} (here : row ∈ s.operations) : row ∈ (s.apply i p move).operations := by
  cases move with
  | commit row' sandboxes => exact List.mem_append_left _ here
  | wait | next stage | violated | done answer => exact here

theorem apply_lookup_other {move : Move} (different : j ≠ i) :
    (s.apply i p move).requests.lookup j = s.requests.lookup j := by
  cases move with
  | wait => rfl
  | next stage | violated | done answer | commit row sandboxes => exact AList.lookup_insert_ne different

theorem apply_request {move : Move} {q : Serving} (found : s.requests.lookup i = some p)
    (next : (s.apply i p move).requests.lookup i = some q) : q.request = p.request := by
  cases move with
  | wait =>
    cases found.symm.trans next
    rfl
  | next stage | violated | done answer | commit row sandboxes =>
    cases (AList.lookup_insert (s := s.requests)).symm.trans next
    rfl

theorem apply_lookup_own {move : Move} {q : Serving} (found : s.requests.lookup i = some p)
    (next : (s.apply i p move).requests.lookup i = some q) (answers : move.Answers enc digests row p.request)
    (answered : p.Answered enc digests row) : q.Answered enc digests row := by
  cases move with
  | wait =>
    cases found.symm.trans next
    exact answered
  | next stage =>
    cases (AList.lookup_insert (s := s.requests)).symm.trans next
    exact .inr (.inl answers)
  | done answer =>
    cases (AList.lookup_insert (s := s.requests)).symm.trans next
    exact .inr (.inr ⟨answer, rfl, answers⟩)
  | violated | commit row sandboxes => cases answers

theorem Sees.step (event : AdmissionEvent) (sees : Sees enc digests row i s) :
    Sees enc digests row i (admissionStep enc digests s event) := by
  have inv : (admissionStep enc digests s event).Inv digests := admissionStep_inv s event sees.inv
  cases event with
  | begin j r =>
    refine ⟨inv, ?_, ?_⟩
    · show row ∈ (if j ∈ s.requests then s else s.set j _).operations
      split
      · exact sees.here
      · exact sees.here
    · intro p found keyed
      have found : (if j ∈ s.requests then s else s.set j _).requests.lookup i = some p := found
      by_cases known : j ∈ s.requests
      · rw [if_pos known] at found
        exact sees.answered p found keyed
      · rw [if_neg known] at found
        rcases Maps.lookup_insert_some found with ⟨_, rfl⟩ | ⟨_, before⟩
        · exact .inl rfl
        · exact sees.answered p before keyed
  | statement j v =>
    rw [admissionStep] at inv ⊢
    cases found : s.requests.lookup j with
    | none => exact sees
    | some q =>
      rw [found] at inv
      refine ⟨inv, apply_operations sees.here, ?_⟩
      intro p next keyed
      by_cases mine : i = j
      · subst mine
        rw [apply_request found next] at keyed
        have answered := sees.answered q found keyed
        exact apply_lookup_own found next (Serving.answers sees.inv sees.here keyed answered) answered
      · have next : (s.apply j q _).requests.lookup i = some p := next
        rw [apply_lookup_other mine] at next
        exact sees.answered p next keyed

/-- The rows that a step wrote: none, or all rows of a request that is accepted with them. -/
inductive Database.Writes (digests : RequestDigests) (s s' : Database) : Prop where
  | nothing (operations : s'.operations = s.operations) (sandboxes : s'.sandboxes = s.sandboxes)
  | admitted (i : RequestId) (p : Serving) (row : AdmittedOperation) (created : List SandboxId)
      (found : s.requests.lookup i = some p) (writes : p.request.Writes digests row)
      (complete : p.request.Complete row created) (operations : s'.operations = s.operations ++ [row])
      (sandboxes : s'.sandboxes = s.sandboxes ++ created)
      (accepted : s'.requests.lookup i = some { p with stage := .finished (.accepted row.id) })

end Requests

namespace AdmissionSample

def enc : CommandEncoding where
  length _ := 0
  digest _ := Vector.replicate 32 0

def digests : RequestDigests where
  execute _ _ := Vector.replicate 32 0
  cancel _ := Vector.replicate 32 1
  upload _ _ := Vector.replicate 32 2

def request : Request := .cancel { key := { projectId := ⟨1⟩, idempotencyKey := "cancel-it-please" }, target := ⟨5⟩ }

def view (authorized : Bool) : View :=
  { now := seconds 20, authorized, status := .queued, responseExpiresAt := none, imageAllowed := true,
    sandbox := none
    allocation :=
      { id := ⟨3⟩, projectId := ⟨1⟩, sandboxId := ⟨2⟩, hostId := ⟨4⟩, generation := 1,
        supervisorEpoch := 1 }
    target := some
      { sandboxId := ⟨2⟩, kind := .execute, status := .running, executionAllocationId := some ⟨3⟩ }
    previous := none, pendingCancel := none, activeExecution := none, activeUpload := false,
    ready := true, hasCapacity := true
    uploads :=
      { total := 0, bytes := 0, projectCount := 0, projectBytes := 0, allocationCount := 0,
        allocationBytes := 0 }
    still := true, newOperation := ⟨6⟩, newSandbox := ⟨7⟩, newAttempt := ⟨8⟩ }

def admitted : List AdmissionEvent :=
  [.begin 0 request, .statement 0 (view true), .statement 0 (view true), .statement 0 (view true),
    .statement 0 (view true)]

def repeated : List AdmissionEvent := [.begin 1 request, .statement 1 (view false)]

def creation : Request :=
  .create
    { key := { projectId := ⟨1⟩, idempotencyKey := "create-it-please" }
      requestDigest := Vector.replicate 32 3, resources := { vcpu := 1, memoryMib := 128, diskMib := 64 } }

/-- Two equal creations, both past their first lookup before either inserts. -/
def raced : List AdmissionEvent :=
  [.begin 0 creation, .begin 1 creation] ++
    [0, 1, 0, 1, 0, 1, 0, 1, 1].map fun i => .statement i (view true)

example : ((run (admissionStep enc digests) {} raced).requests.lookup 1).map (fun p => (p.stage, p.lost)) =
    some (.finished (.accepted ⟨6⟩), true) := by rfl

end AdmissionSample
end HudsonSandbox.Store
