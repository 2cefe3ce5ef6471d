import HudsonSandbox.Inner.Boot
import HudsonSandbox.Launch.Reconciled

/-!
# The launch authority of a whole host

What each operation of the file proves of an allocation, and what it makes of the stages of the
serials. An allocation has one serial, so what is past for the serial is past for the allocation.
-/

namespace HudsonSandbox.Inner
open Checked AllocationAuthority AllocationRetirement Stored Host Ledger
open Launch (load_eq save_eq)

/-- The serial of the allocation has come at least to the stage. -/
def Past (issuer : Issuer) (stage : Stage) (allocation : AllocationId) (file : AuthorityFile) : Prop :=
  ∃ n < 2 ^ 64, (issuer.permit n).allocation = allocation ∧ stage ≤ file.ledger.stage n

/-- A ledger of this host, with permits of this issuer only. -/
structure Issued (host : HostId) (issuer : Issuer) (file : AuthorityFile) : Prop where
  sound : Launch.Sound host file
  permits : ∀ e ∈ file.ledger.entries, e.permit = issuer.permit e.permit.serial

/-- No serial goes back. -/
structure Forward (host : HostId) (issuer : Issuer) (file next : AuthorityFile) : Prop where
  issued : Issued host issuer next
  epoch : next.epoch = file.epoch
  stages : ∀ n, file.ledger.stage n ≤ next.ledger.stage n

section
variable {texts : Texts} {host : HostId} {issuer : Issuer} {file next : AuthorityFile}
  {minimum : Checkpoint} {allocation : AllocationId} {stage : Stage}

theorem Past.mono {lower : Stage} (past : Past issuer stage allocation file) (le : lower ≤ stage) :
    Past issuer lower allocation file := by
  obtain ⟨n, low, owner, reached⟩ := past
  exact ⟨n, low, owner, le.trans reached⟩

theorem Forward.past (forward : Forward host issuer file next) (past : Past issuer stage allocation file) :
    Past issuer stage allocation next := by
  obtain ⟨n, low, owner, reached⟩ := past
  exact ⟨n, low, owner, reached.trans (forward.stages n)⟩

theorem Issued.entry_stage (issued : Issued host issuer file) {e : Entry} (member : e ∈ file.ledger.entries) :
    file.ledger.stage e.permit.serial = Authority.State.stage e.state :=
  Authority.stage_member issued.sound.stored.valid member

theorem Issued.past_entry (issued : Issued host issuer file) {e : Entry} (member : e ∈ file.ledger.entries) :
    Past issuer (Authority.State.stage e.state) e.permit.allocation file :=
  ⟨e.permit.serial, (issued.sound.stored.words e member).serial, by rw [← issued.permits e member],
    (issued.entry_stage member).ge⟩

/-- The entry of an allocation is at the stage that the allocation has reached. -/
theorem Issued.entry_reached (issued : Issued host issuer file) (past : Past issuer stage allocation file)
    {e : Entry} (member : e ∈ file.ledger.entries) (owner : e.permit.allocation = allocation) :
    stage ≤ Authority.State.stage e.state := by
  obtain ⟨n, low, named, reached⟩ := past
  have same : e.permit.serial = n := by
    refine issuer.allocation _ (issued.sound.stored.words e member).serial _ low ?_
    rw [← issued.permits e member, owner, named]
  rw [← issued.entry_stage member, same]
  exact reached

theorem fenced_of_withdrawn (withdrawn : .active < stage) : Stage.fenced ≤ stage := by
  revert withdrawn
  cases stage <;> decide

/-! ### What a lookup proves -/

theorem state_entry {ledger : Authority} {permit : Permit} {state : State}
    (read : ledger.state permit = .ok state) : ∃ e ∈ ledger.entries, e.permit = permit ∧ e.state = state :=
  Authority.state_ok read

/-- A registered allocation is still active. -/
theorem authorizeRegisteredAllocation_active (issued : Issued host issuer file) {permit : Permit}
    (h : file.authorizeRegisteredAllocation texts host minimum allocation = .ok permit) :
    ¬Past issuer .fenced allocation file := by
  intro past
  obtain ⟨ledger, loaded, h⟩ := bind_ok.mp h
  obtain ⟨rfl, _⟩ := load_eq issued.sound loaded
  obtain ⟨_, h⟩ := seq_ok.mp h
  obtain ⟨found, active, h⟩ := bind_ok.mp h
  obtain ⟨_, active⟩ := seq_ok.mp (mapError_ok.mp active)
  obtain ⟨e, present, active⟩ := bind_ok.mp active
  obtain ⟨state, _⟩ := seq_ok.mp active
  have chosen := okOr_ok.mp present
  have owner : e.permit.allocation = allocation := by
    simpa using List.find?_some chosen
  have reached := issued.entry_reached past (List.mem_of_find?_eq_some chosen) owner
  rw [ensure_ok.mp state] at reached
  exact absurd reached (by decide)

theorem authorizeRetirement_open {intent : Intent} (issued : Issued host issuer file)
    (h : file.authorizeRetirement texts host minimum intent = .ok ()) :
    ¬Past issuer .complete intent.permit.allocation file := by
  intro past
  obtain ⟨_, h⟩ := seq_ok.mp h
  obtain ⟨_, h⟩ := seq_ok.mp h
  obtain ⟨ledger, loaded, h⟩ := bind_ok.mp h
  obtain ⟨rfl, _⟩ := load_eq issued.sound loaded
  obtain ⟨_, h⟩ := seq_ok.mp h
  obtain ⟨state, read, h⟩ := bind_ok.mp h
  obtain ⟨e, member, same, rfl⟩ := state_entry (mapError_ok.mp read)
  have reached := issued.entry_reached past member (by rw [same])
  rcases ensure_ok.mp h with active | fenced
  · rw [active] at reached
    exact absurd reached (by decide)
  · rw [fenced] at reached
    exact absurd reached (show ¬Stage.complete ≤ Stage.fenced by decide)

theorem retirementGuard_complete {epoch : ℤ} {intent : Intent} (issued : Issued host issuer file)
    (h : file.retirementGuard texts host minimum epoch intent = .ok .complete) :
    Past issuer .complete intent.permit.allocation file := by
  obtain ⟨_, h⟩ := seq_ok.mp h
  obtain ⟨_, h⟩ := seq_ok.mp h
  obtain ⟨ledger, loaded, h⟩ := bind_ok.mp h
  obtain ⟨rfl, _⟩ := load_eq issued.sound loaded
  obtain ⟨_, h⟩ := seq_ok.mp h
  unfold AuthorityFile.phase at h
  split at h
  · split at h
    · cases h
    · cases h
  next retirement digest read =>
    obtain ⟨e, member, same, state⟩ := state_entry read
    have past := issued.past_entry member
    rw [same, state] at past
    exact past
  · cases h
  · cases h

/-! ### What a save does -/

theorem index_words (issued : Issued host issuer file) {permit : Permit} {i : Fin file.ledger.entries.length}
    (found : file.ledger.index permit = .ok i) : permit.Words := by
  rw [← (Authority.index_ok found).2]
  exact issued.sound.stored.words _ (List.getElem_mem i.isLt)

/-- A ledger request whose permits are the issuer's takes no serial back. -/
theorem change_forward (issued : Issued host issuer file) {request : Authority.Request} (words : request.Words)
    (batch : ∀ p ∈ request.permits, p = issuer.permit p.serial)
    (h : file.change texts (file.ledger.apply texts.json texts.intents texts.sha256 request) = .ok next) :
    Forward host issuer file next ∧
      next.ledger = file.ledger.step texts.json texts.intents texts.sha256 request := by
  have moved := @Authority.step_advances texts.json texts.intents texts.sha256 file.ledger texts.serde
    issued.sound.stored request words
  have grown := (@Authority.step_grown texts.json texts.intents texts.sha256 file.ledger texts.serde
    issued.sound.stored request).1
  obtain ⟨_, h⟩ := seq_ok.mp h
  obtain rfl := save_eq h
  refine ⟨⟨⟨⟨?_, ?_⟩, fun e member => ?_⟩, rfl, moved.ledger.le⟩, rfl⟩
  · exact Authority.step_stored texts.serde issued.sound.stored words
  · exact moved.host.trans issued.sound.host
  · rcases grown e member with ⟨old, held, same⟩ | added
    · rw [← same]
      exact issued.permits old held
    · exact batch e.permit added

theorem register_forward (issued : Issued host issuer file) {reportingEpoch : ℤ} {permits : List Permit}
    (words : ∀ p ∈ permits, p.Words) (batch : ∀ p ∈ permits, p = issuer.permit p.serial)
    (h : file.register texts host minimum reportingEpoch permits = .ok next) :
    Forward host issuer file next := by
  obtain ⟨ledger, loaded, h⟩ := bind_ok.mp h
  obtain ⟨rfl, _⟩ := load_eq issued.sound loaded
  obtain ⟨_, h⟩ := seq_ok.mp h
  obtain ⟨_, h⟩ := seq_ok.mp h
  exact (@change_forward texts host issuer file next issued (.register permits) words batch h).1

/-- What a fence accepts is an entry of the table. -/
theorem fence_index {ledger : Authority} {permit : Permit} {retirement : OperationId}
    (accepted : (ledger.fence permit retirement).2 = .ok ()) : ∃ i, ledger.index permit = .ok i := by
  unfold Authority.fence at accepted
  split at accepted
  · cases accepted
  · split at accepted
    · cases accepted
    next i found => exact ⟨i, found⟩

theorem index_entry {ledger : Authority} {permit : Permit} {i : Fin ledger.entries.length}
    (found : ledger.index permit = .ok i) : ∃ e ∈ ledger.entries, e.permit = permit :=
  ⟨_, List.getElem_mem i.isLt, (Authority.index_ok found).2⟩

/-- What is in the table is the issuer's own permit. -/
theorem Issued.permit_eq (issued : Issued host issuer file) {permit : Permit} {i : Fin file.ledger.entries.length}
    (found : file.ledger.index permit = .ok i) : issuer.permit permit.serial = permit := by
  obtain ⟨e, member, rfl⟩ := index_entry found
  exact (issued.permits e member).symm

theorem fence_forward (issued : Issued host issuer file) {epoch : ℤ} {permit : Permit}
    {retirement : OperationId} (h : file.fence texts host minimum epoch permit retirement = .ok next) :
    Forward host issuer file next ∧ Past issuer .fenced permit.allocation next := by
  obtain ⟨ledger, loaded, h⟩ := bind_ok.mp h
  obtain ⟨rfl, _⟩ := load_eq issued.sound loaded
  obtain ⟨_, h⟩ := seq_ok.mp h
  have accepted := mapError_ok.mp (seq_ok.mp h).1
  obtain ⟨i, found⟩ := fence_index accepted
  have words := index_words issued found
  obtain ⟨forward, ledger⟩ := @change_forward texts host issuer file next issued (.fence permit retirement) words
    (fun p absent => absurd absent List.not_mem_nil) h
  have moved := @Authority.step_advances texts.json texts.intents texts.sha256 file.ledger texts.serde
    issued.sound.stored (.fence permit retirement) words
  have withdrawn := moved.withdrawn accepted permit.serial rfl
  refine ⟨forward, permit.serial, words.serial, ?_, ?_⟩
  · rw [issued.permit_eq found]
  · rw [ledger]
    exact fenced_of_withdrawn withdrawn

theorem complete_index {ledger : Authority} {intents : Codec Intent (List UInt8)}
    {sha256 : List UInt8 → AllocationRetirement.Digest} {intent : Intent}
    (accepted : (ledger.complete intents sha256 intent).2 = .ok ()) :
    ∃ i, ledger.index intent.permit = .ok i ∧
      ∃ e ∈ (ledger.complete intents sha256 intent).1.entries, e.permit = intent.permit ∧
        Authority.State.stage e.state = .complete := by
  unfold Authority.complete at accepted ⊢
  split at accepted
  · cases accepted
  next state made =>
    obtain ⟨_, digest, rfl⟩ := Authority.completionState_ok made
    split at accepted
    · cases accepted
    next i found =>
      have same : ledger.entries[i].permit = intent.permit := (Authority.index_ok found).2
      refine ⟨i, found, ?_⟩
      split at accepted
      next fenced =>
        rw [if_pos fenced]
        refine ⟨_, List.mem_set i.isLt _, same, rfl⟩
      next unfenced =>
        rw [if_neg unfenced]
        split at accepted
        next already =>
          rw [if_pos already]
          refine ⟨ledger.entries[i], List.getElem_mem i.isLt, same, ?_⟩
          rw [already]
          rfl
        · cases accepted

theorem complete_forward (issued : Issued host issuer file) {intent : Intent}
    (h : file.complete texts intent = .ok next) :
    Forward host issuer file next ∧ Past issuer .complete intent.permit.allocation next := by
  have accepted := mapError_ok.mp (seq_ok.mp h).1
  obtain ⟨i, found, e, member, same, reached⟩ := complete_index accepted
  have words := index_words issued found
  obtain ⟨forward, ledger⟩ := @change_forward texts host issuer file next issued (.complete intent) words
    (fun p absent => absurd absent List.not_mem_nil) h
  have kept : e ∈ next.ledger.entries := by
    rw [ledger]
    exact member
  have past := forward.issued.past_entry kept
  rw [same, reached] at past
  exact ⟨forward, past⟩

theorem forget_forward (issued : Issued host issuer file) {intent : Intent}
    (h : file.forget texts intent = .ok next) : Forward host issuer file next := by
  have accepted := mapError_ok.mp (seq_ok.mp h).1
  have found : ∃ i, file.ledger.index intent.permit = .ok i := by
    unfold Authority.forget at accepted
    split at accepted
    · cases accepted
    · split at accepted
      · cases accepted
      next i found => exact ⟨i, found⟩
  obtain ⟨i, found⟩ := found
  exact (@change_forward texts host issuer file next issued (.forget intent) (index_words issued found)
    (fun p absent => absurd absent List.not_mem_nil) h).1

/-! ### What a save closes -/

theorem closed_iff {ledger : Authority} (valid : ledger.Valid) {n : ℕ} :
    ledger.stage n = .closed ↔ (∀ e ∈ ledger.entries, e.permit.serial ≠ n) ∧ 1 ≤ n ∧ n ≤ ledger.through := by
  constructor
  · intro closed
    have absent : ∀ e ∈ ledger.entries, e.permit.serial ≠ n := by
      rintro e member rfl
      rw [Authority.stage_member valid member] at closed
      cases state : e.state <;> rw [state] at closed <;> cases closed
    rw [Authority.stage_absent absent] at closed
    split at closed
    next low => exact ⟨absent, low⟩
    · cases closed
  · rintro ⟨absent, low⟩
    rw [Authority.stage_absent absent, if_pos low]

/-- The serials that are listed stay so, and only listed ones are added below the mark. -/
theorem closed_of_permits {ledger after : Authority} (valid : ledger.Valid) (stored : after.Valid)
    (permits : after.entries.map Entry.permit = ledger.entries.map Entry.permit) (through : after.through = ledger.through)
    {n : ℕ} (closed : after.stage n = .closed) : ledger.stage n = .closed := by
  obtain ⟨absent, low⟩ := (closed_iff stored).mp closed
  rw [through] at low
  refine (closed_iff valid).mpr ⟨fun e member same => ?_, low⟩
  have listed : e.permit ∈ after.entries.map Entry.permit := by
    rw [permits]
    exact List.mem_map_of_mem member
  obtain ⟨other, kept, owner⟩ := List.mem_map.mp listed
  exact absent other kept (by rw [owner, same])

theorem fence_permits (ledger : Authority) (permit : Permit) (retirement : OperationId) :
    (ledger.fence permit retirement).1.entries.map Entry.permit = ledger.entries.map Entry.permit ∧
      (ledger.fence permit retirement).1.through = ledger.through := by
  unfold Authority.fence
  split
  · exact ⟨rfl, rfl⟩
  split
  · exact ⟨rfl, rfl⟩
  split
  · exact ⟨Authority.setState_shape id, rfl⟩
  all_goals
    split
    · exact ⟨rfl, rfl⟩
    · exact ⟨rfl, rfl⟩

theorem complete_permits (ledger : Authority) (intents : Codec Intent (List UInt8))
    (sha256 : List UInt8 → AllocationRetirement.Digest) (intent : Intent) :
    (ledger.complete intents sha256 intent).1.entries.map Entry.permit = ledger.entries.map Entry.permit ∧
      (ledger.complete intents sha256 intent).1.through = ledger.through := by
  unfold Authority.complete
  split
  · exact ⟨rfl, rfl⟩
  split
  · exact ⟨rfl, rfl⟩
  split
  · exact ⟨Authority.setState_shape id, rfl⟩
  split
  · exact ⟨rfl, rfl⟩
  · exact ⟨rfl, rfl⟩

theorem fence_closed (issued : Issued host issuer file) {epoch : ℤ} {permit : Permit} {retirement : OperationId}
    (h : file.fence texts host minimum epoch permit retirement = .ok next) {n : ℕ}
    (closed : next.ledger.stage n = .closed) : file.ledger.stage n = .closed := by
  have valid := (fence_forward issued h).1.issued.sound.stored.valid
  obtain ⟨ledger, loaded, h⟩ := bind_ok.mp h
  obtain ⟨rfl, _⟩ := load_eq issued.sound loaded
  obtain ⟨_, h⟩ := seq_ok.mp h
  obtain ⟨_, h⟩ := seq_ok.mp h
  obtain rfl := save_eq h
  obtain ⟨permits, through⟩ := fence_permits file.ledger permit retirement
  exact closed_of_permits issued.sound.stored.valid valid permits through closed

theorem complete_closed (issued : Issued host issuer file) {intent : Intent}
    (h : file.complete texts intent = .ok next) {n : ℕ} (closed : next.ledger.stage n = .closed) :
    file.ledger.stage n = .closed := by
  have valid := (complete_forward issued h).1.issued.sound.stored.valid
  obtain ⟨_, h⟩ := seq_ok.mp h
  obtain rfl := save_eq h
  obtain ⟨permits, through⟩ := complete_permits file.ledger texts.intents texts.sha256 intent
  exact closed_of_permits issued.sound.stored.valid valid permits through closed

/-- A batch lists every serial that it lifts the mark over. -/
theorem register_closed (issued : Issued host issuer file) {reportingEpoch : ℤ} {permits : List Permit}
    (words : ∀ p ∈ permits, p.Words) (batch : ∀ p ∈ permits, p = issuer.permit p.serial)
    (h : file.register texts host minimum reportingEpoch permits = .ok next) {n : ℕ}
    (closed : next.ledger.stage n = .closed) : file.ledger.stage n = .closed := by
  have after := (register_forward issued words batch h).issued.sound.stored.valid
  have valid := issued.sound.stored.valid
  obtain ⟨ledger, loaded, h⟩ := bind_ok.mp h
  obtain ⟨rfl, _⟩ := load_eq issued.sound loaded
  obtain ⟨_, h⟩ := seq_ok.mp h
  obtain ⟨_, h⟩ := seq_ok.mp h
  obtain ⟨_, h⟩ := seq_ok.mp h
  obtain rfl := save_eq h
  revert after closed
  show (file.ledger.register texts.json permits).1.stage n = .closed →
    (file.ledger.register texts.json permits).1.Valid → file.ledger.stage n = .closed
  unfold Authority.register
  split
  · exact fun closed _ => closed
  · exact fun closed _ => closed
  next grown proposed =>
    intro closed after
    obtain ⟨rfl, serials, _, _, _⟩ := (Authority.proposed_batch proposed).1
    obtain ⟨absent, positive, low⟩ := (closed_iff after).mp closed
    rw [Authority.foldl_push_through serials] at low
    rw [Authority.foldl_push_entries] at absent
    refine (closed_iff valid).mpr ⟨fun e member => absent e (List.mem_append_left _ member), positive, ?_⟩
    by_contra high
    have fresh : n ∈ permits.map Permit.serial := by
      rw [serials, List.mem_range'_1]
      omega
    obtain ⟨p, listed, rfl⟩ := List.mem_map.mp fresh
    exact absent ⟨p, .active⟩ (List.mem_append_right _ (List.mem_map_of_mem listed)) rfl

/-- Forgetting closes one serial, of the intent's own allocation. -/
theorem forget_closed (issued : Issued host issuer file) {intent : Intent}
    (h : file.forget texts intent = .ok next) {n : ℕ} (closed : next.ledger.stage n = .closed) :
    file.ledger.stage n = .closed ∨ issuer.permit n = intent.permit := by
  have after := (forget_forward issued h).issued.sound.stored.valid
  have valid := issued.sound.stored.valid
  obtain ⟨accepted, h⟩ := seq_ok.mp h
  obtain rfl := save_eq h
  revert after closed
  show (file.ledger.forget texts.intents texts.sha256 intent).1.stage n = .closed →
    (file.ledger.forget texts.intents texts.sha256 intent).1.Valid → _
  unfold Authority.forget
  split
  · exact fun closed _ => .inl closed
  split
  · exact fun closed _ => .inl closed
  next i found =>
    intro closed after
    obtain ⟨absent, positive, low⟩ := (closed_iff after).mp closed
    by_cases listed : ∃ e ∈ file.ledger.entries, e.permit.serial = n
    · obtain ⟨e, member, rfl⟩ := listed
      refine .inr ?_
      have owner : file.ledger.entries[i].permit = intent.permit := (Authority.index_ok found).2
      obtain ⟨j, bound, rfl⟩ := List.mem_iff_getElem.mp member
      have same : j = i := by
        by_contra apart
        exact absent _ (List.mem_eraseIdx_iff_getElem.mpr ⟨j, bound, apart, rfl⟩) rfl
      subst same
      rw [← issued.permits _ member]
      exact owner
    · refine .inl ((closed_iff valid).mpr ⟨fun e member same => listed ⟨e, member, same⟩, positive, low⟩)

end
end HudsonSandbox.Inner
