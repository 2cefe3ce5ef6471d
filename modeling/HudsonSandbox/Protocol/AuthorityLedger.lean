import HudsonSandbox.Protocol.AllocationAuthority
import Mathlib.Data.List.Nodup

/-!
# The authority is a one-way ledger of serials

`Valid` is what `decode` checks. Every request keeps it, and read through `stage` every request
is one step of the abstract ledger, so a serial that was fenced, completed or forgotten is never
authorized again.
-/

namespace HudsonSandbox.AllocationAuthority.Authority
open Checked Search AllocationRetirement Ledger

/-! ### What a stored table satisfies -/

structure Valid (table : Authority) : Prop where
  version : table.version = 1
  bounded : table.through ≤ MAX_SERIAL
  capacity : table.entries.length ≤ MAX_ENTRIES
  permits : ∀ e ∈ table.entries, e.permit.Valid
  hosts : ∀ e ∈ table.entries, e.permit.host = table.host
  ascending : Ascending table.entries (·.permit.serial)
  below : ∀ e ∈ table.entries, e.permit.serial ≤ table.through
  allocations : (table.entries.map (·.permit.allocation)).Nodup
  operations : (table.entries.map (·.permit.createOperation)).Nodup
  generations : (table.entries.map fun e => (e.permit.sandbox, e.permit.generation)).Nodup
  retirements : ∀ e ∈ table.entries, State.validRetirement e.state = .ok ()
  owner : table.host.uuid.Valid

/-- A value the parser returns: it takes identities of version 7 only. -/
structure Parses (table : Authority) : Prop where
  host : table.host.uuid.Valid
  permits : ∀ e ∈ table.entries, e.permit.Valid
  retirements : ∀ e ∈ table.entries, State.validRetirement e.state = .ok ()

theorem Valid.parses {table : Authority} (valid : table.Valid) : table.Parses :=
  ⟨valid.owner, valid.permits, valid.retirements⟩

/-- What `checkEntries` establishes of the remaining entries, given what it has already seen. -/
structure Accepted (host : HostId) (through : ℕ) (seen : Seen) (entries : List Entry) : Prop where
  permits : ∀ e ∈ entries, e.permit.Valid
  hosts : ∀ e ∈ entries, e.permit.host = host
  above : ∀ e ∈ entries, seen.previous < e.permit.serial
  ascending : Ascending entries (·.permit.serial)
  below : ∀ e ∈ entries, e.permit.serial ≤ through
  allocations : (entries.map (·.permit.allocation) ++ seen.allocations).Nodup
  operations : (entries.map (·.permit.createOperation) ++ seen.operations).Nodup
  generations :
    (entries.map (fun e => (e.permit.sandbox, e.permit.generation)) ++ seen.generations).Nodup
  retirements : ∀ e ∈ entries, State.validRetirement e.state = .ok ()

theorem checkEntries_accepted {host : HostId} {through : ℕ} {seen : Seen} {entries : List Entry}
    (allocations : seen.allocations.Nodup) (operations : seen.operations.Nodup)
    (generations : seen.generations.Nodup)
    (checked : checkEntries host through seen entries = .ok ()) :
    Accepted host through seen entries := by
  induction entries generalizing seen with
  | nil =>
    exact ⟨by simp, by simp, by simp, .nil, by simp, by simpa, by simpa, by simpa, by simp⟩
  | cons e rest ih =>
    obtain ⟨permit, checked⟩ := seq_ok.mp checked
    obtain ⟨owner, checked⟩ := seq_ok.mp checked
    obtain ⟨fresh, checked⟩ := seq_ok.mp checked
    obtain ⟨retirement, checked⟩ := seq_ok.mp checked
    have valid := Permit.validate_ok.mp permit
    have host := ensure_ok.mp owner
    obtain ⟨higher, within, newAllocation, newOperation, newGeneration⟩ :
        seen.previous < e.permit.serial ∧ e.permit.serial ≤ through ∧
        e.permit.allocation ∉ seen.allocations ∧ e.permit.createOperation ∉ seen.operations ∧
        (e.permit.sandbox, e.permit.generation) ∉ seen.generations := by
      simpa only [not_or, not_le, not_lt] using ensure_ok.mp fresh
    have tail := ih (List.nodup_cons.mpr ⟨newAllocation, allocations⟩)
      (List.nodup_cons.mpr ⟨newOperation, operations⟩)
      (List.nodup_cons.mpr ⟨newGeneration, generations⟩) checked
    refine ⟨?_, ?_, ?_, ?_, ?_, ?_, ?_, ?_, ?_⟩
    · exact List.forall_mem_cons.mpr ⟨valid, tail.permits⟩
    · exact List.forall_mem_cons.mpr ⟨host, tail.hosts⟩
    · exact List.forall_mem_cons.mpr ⟨higher, fun e' member => higher.trans (tail.above e' member)⟩
    · exact List.pairwise_cons.mpr ⟨tail.above, tail.ascending⟩
    · exact List.forall_mem_cons.mpr ⟨within, tail.below⟩
    · exact List.perm_middle.nodup_iff.mp tail.allocations
    · exact List.perm_middle.nodup_iff.mp tail.operations
    · exact List.perm_middle.nodup_iff.mp tail.generations
    · exact List.forall_mem_cons.mpr ⟨retirement, tail.retirements⟩

theorem new_valid {host : HostId} {made : Authority} (h : Authority.new host = .ok made) :
    made.Valid := by
  obtain ⟨owner, h⟩ := seq_ok.mp h
  obtain rfl := pure_ok.mp h
  exact ⟨rfl, Nat.zero_le _, Nat.zero_le _, by simp, by simp, .nil, by simp, by simp, by simp,
    by simp, by simp, validUuid_ok.mp owner⟩

theorem new_host {host : HostId} {made : Authority} (h : Authority.new host = .ok made) :
    made.host = host := by
  obtain ⟨_, h⟩ := seq_ok.mp h
  obtain rfl := pure_ok.mp h
  rfl

section Storage
variable {json : Codec Authority (List UInt8)}

theorem decode_valid {bytes : List UInt8} {host : HostId} {minimumThrough : ℕ}
    {restored : Authority} (h : decode json bytes host minimumThrough = .ok restored) :
    json.decode bytes = some restored ∧ restored.Valid := by
  obtain ⟨_, h⟩ := seq_ok.mp h
  obtain ⟨saved, read, h⟩ := bind_ok.mp h
  obtain ⟨identity, h⟩ := seq_ok.mp h
  obtain ⟨shape, h⟩ := seq_ok.mp h
  obtain ⟨owner, h⟩ := seq_ok.mp h
  obtain ⟨checked, h⟩ := seq_ok.mp h
  obtain rfl := pure_ok.mp h
  obtain ⟨version, bounded, _, capacity⟩ : saved.version = 1 ∧ saved.through ≤ MAX_SERIAL ∧
      minimumThrough ≤ saved.through ∧ saved.entries.length ≤ MAX_ENTRIES := by
    simpa only [not_or, not_not, not_lt] using ensure_ok.mp shape
  have entries := checkEntries_accepted List.nodup_nil List.nodup_nil List.nodup_nil checked
  refine ⟨okOr_ok.mp read, version, bounded, capacity, entries.permits, ?_, entries.ascending,
    entries.below, ?_, ?_, ?_, entries.retirements, ?_⟩
  · exact fun e member => (entries.hosts e member).trans (ensure_ok.mp owner).symm
  · simpa using entries.allocations
  · simpa using entries.operations
  · simpa using entries.generations
  · rw [ensure_ok.mp owner]
    exact validUuid_ok.mp identity

theorem decode_through {bytes : List UInt8} {host : HostId} {minimumThrough : ℕ}
    {restored : Authority} (h : decode json bytes host minimumThrough = .ok restored) :
    minimumThrough ≤ restored.through := by
  obtain ⟨_, h⟩ := seq_ok.mp h
  obtain ⟨saved, _, h⟩ := bind_ok.mp h
  obtain ⟨_, h⟩ := seq_ok.mp h
  obtain ⟨shape, h⟩ := seq_ok.mp h
  obtain ⟨_, h⟩ := seq_ok.mp h
  obtain ⟨_, h⟩ := seq_ok.mp h
  obtain rfl := pure_ok.mp h
  exact not_lt.mp fun below => ensure_ok.mp shape (Or.inr (Or.inr (Or.inl below)))

theorem decode_encode {self restored : Authority} (keeps : json.Keeps self)
    {bytes : List UInt8} {host : HostId} {minimumThrough : ℕ}
    (written : self.encode json = .ok bytes)
    (read : decode json bytes host minimumThrough = .ok restored) :
    restored = self ∧ self.Valid := by
  obtain ⟨form, encoded, written⟩ := bind_ok.mp written
  obtain ⟨_, written⟩ := seq_ok.mp written
  obtain rfl := pure_ok.mp written
  obtain ⟨decoded, valid⟩ := decode_valid read
  have same : restored = self :=
    Option.some.inj (decoded.symm.trans (keeps _ (okOr_ok.mp encoded)))
  exact ⟨same, same ▸ valid⟩

end Storage

/-! ### Reading a table as a ledger -/

def State.stage : State → Stage
  | .active => .active
  | .fenced _ => .fenced
  | .complete _ _ => .complete

/-- A serial below the mark that no entry carries is closed. -/
def stage (self : Authority) (serial : ℕ) : Stage :=
  match self.entries.find? fun e => e.permit.serial = serial with
  | some e => State.stage e.state
  | none => if 1 ≤ serial ∧ serial ≤ self.through then .closed else .unissued

theorem stage_absent {self : Authority} {serial : ℕ}
    (absent : ∀ e ∈ self.entries, e.permit.serial ≠ serial) :
    self.stage serial = if 1 ≤ serial ∧ serial ≤ self.through then .closed else .unissued := by
  have missing : self.entries.find? (fun e => e.permit.serial = serial) = none := by
    simpa [List.find?_eq_none] using absent
  rw [stage, missing]

theorem stage_member {self : Authority} (valid : self.Valid) {e : Entry}
    (member : e ∈ self.entries) : self.stage e.permit.serial = State.stage e.state := by
  obtain ⟨i, bound, rfl⟩ := List.mem_iff_getElem.mp member
  have found : self.entries.find? (fun e => e.permit.serial = self.entries[i].permit.serial) =
      some self.entries[i] := by
    refine List.find?_eq_some_iff_getElem.mpr ⟨by simp, i, bound, rfl, fun j before => ?_⟩
    have lower := valid.ascending.lt (i := ⟨j, by omega⟩) (j := ⟨i, bound⟩) before
    simpa using lower.ne
  rw [stage, found]

theorem stage_get {self : Authority} (valid : self.Valid) (i : Fin self.entries.length) :
    self.stage (self.entries.get i).permit.serial = State.stage (self.entries.get i).state :=
  stage_member valid (List.getElem_mem i.isLt)

/-- Where two tables hold the same entries for a serial, they agree on its stage. -/
theorem stage_congr {a b : Authority} {serial : ℕ} (validA : a.Valid) (validB : b.Valid)
    (same : ∀ e : Entry, e.permit.serial = serial → (e ∈ a.entries ↔ e ∈ b.entries))
    (mark : serial ≤ a.through ↔ serial ≤ b.through) : b.stage serial = a.stage serial := by
  by_cases present : ∃ e ∈ a.entries, e.permit.serial = serial
  · obtain ⟨e, member, rfl⟩ := present
    rw [stage_member validA member, stage_member validB ((same e rfl).mp member)]
  · have absentA : ∀ e ∈ a.entries, e.permit.serial ≠ serial :=
      fun e member hit => present ⟨e, member, hit⟩
    have absentB : ∀ e ∈ b.entries, e.permit.serial ≠ serial :=
      fun e member hit => absentA e ((same e hit).mpr member) hit
    simp only [stage_absent absentA, stage_absent absentB, mark]

/-! ### Looking a permit up -/

theorem index_ok {self : Authority} {permit : Permit} {i : Fin self.entries.length}
    (found : self.index permit = .ok i) : permit.Valid ∧ (self.entries.get i).permit = permit := by
  obtain ⟨valid, found⟩ := seq_ok.mp found
  obtain ⟨_, found⟩ := seq_ok.mp found
  split at found
  · split at found
    next same =>
      cases found
      exact ⟨Permit.validate_ok.mp valid, same⟩
    next => cases found
  · split at found <;> cases found

theorem state_ok {self : Authority} {permit : Permit} {state : State}
    (read : self.state permit = .ok state) :
    ∃ e ∈ self.entries, e.permit = permit ∧ e.state = state := by
  obtain ⟨e, found, read⟩ := bind_ok.mp read
  obtain ⟨i, indexed, found⟩ := bind_ok.mp found
  obtain rfl := pure_ok.mp found
  obtain rfl := pure_ok.mp read
  exact ⟨_, List.getElem_mem i.isLt, (index_ok indexed).2, rfl⟩

section SetState
variable {self : Authority} {i : Fin self.entries.length} {state : State}

theorem setState_shape {β : Type*} (f : Permit → β) :
    (self.setState i state).entries.map (fun e => f e.permit) =
      self.entries.map fun e => f e.permit := by
  apply List.ext_getElem
  · simp [setState]
  · intro j _ _
    simp only [setState, List.getElem_map, List.getElem_set]
    split
    next same => simp [← same]
    next => rfl

theorem setState_member {e : Entry} (member : e ∈ (self.setState i state).entries) :
    e = { self.entries.get i with state } ∨ e ∈ self.entries := by
  rcases List.mem_or_eq_of_mem_set member with old | fresh
  · exact Or.inr old
  · exact Or.inl fresh

theorem setState_other {e : Entry}
    (different : e.permit.serial ≠ (self.entries.get i).permit.serial) :
    e ∈ self.entries ↔ e ∈ (self.setState i state).entries := by
  constructor
  · intro member
    obtain ⟨j, bound, rfl⟩ := List.mem_iff_getElem.mp member
    have apart : (i : ℕ) ≠ j := fun same => different (by simp [same])
    exact List.mem_iff_getElem.mpr ⟨j, by simpa [setState] using bound, by simp [setState, apart]⟩
  · intro member
    rcases setState_member member with rfl | old
    · exact absurd rfl different
    · exact old

theorem setState_valid (valid : self.Valid) (retirement : State.validRetirement state = .ok ()) :
    (self.setState i state).Valid := by
  have kept : ∀ {P : Permit → Prop}, (∀ e ∈ self.entries, P e.permit) →
      ∀ e ∈ (self.setState i state).entries, P e.permit := by
    intro P all e member
    rcases setState_member member with rfl | old
    · exact (all _ (List.getElem_mem i.isLt) : P (self.entries.get i).permit)
    · exact all e old
  refine ⟨valid.version, valid.bounded, ?_, kept valid.permits,
    kept (P := fun p => p.host = self.host) valid.hosts, ?_,
    kept (P := fun p => p.serial ≤ self.through) valid.below, ?_, ?_, ?_, ?_, valid.owner⟩
  · simpa [setState] using valid.capacity
  · have serials := @setState_shape self i state _ Permit.serial
    have sorted := List.pairwise_map.mpr valid.ascending
    rw [← serials] at sorted
    exact List.pairwise_map.mp sorted
  · rw [setState_shape Permit.allocation]
    exact valid.allocations
  · rw [setState_shape Permit.createOperation]
    exact valid.operations
  · rw [setState_shape fun p => (p.sandbox, p.generation)]
    exact valid.generations
  · intro e member
    rcases setState_member member with rfl | old
    · exact retirement
    · exact valid.retirements e old

/-- Moving one entry forward is one forward step of the ledger. -/
theorem setState_ledger (valid : self.Valid) (retirement : State.validRetirement state = .ok ())
    (forward : State.stage (self.entries.get i).state < State.stage state) :
    Ledger.Step self.stage (self.setState i state).stage ∧
      (self.setState i state).stage (self.entries.get i).permit.serial = State.stage state := by
  have after := setState_valid (i := i) valid retirement
  have before := stage_member valid (List.getElem_mem i.isLt)
  have updated : { self.entries.get i with state } ∈ (self.setState i state).entries :=
    List.mem_iff_getElem.mpr ⟨i, by simp [setState], by simp [setState]⟩
  have moved : (self.setState i state).stage (self.entries.get i).permit.serial = State.stage state :=
    stage_member after updated
  refine ⟨.move (self.entries.get i).permit.serial ?_ ?_ ?_, moved⟩
  · intro unissued
    have known := before.symm.trans unissued
    cases stored : self.entries[(i : ℕ)].state <;> rw [stored] at known <;> cases known
  · rw [moved]
    exact before ▸ forward
  · intro serial different
    refine stage_congr valid after (fun e hit => ?_) Iff.rfl
    exact setState_other (hit ▸ different)

end SetState

/-! ### Forgetting an entry -/

section Forget
variable {self : Authority} {i : Fin self.entries.length}

theorem eraseIdx_valid (valid : self.Valid) :
    { self with entries := self.entries.eraseIdx i }.Valid := by
  have sub := List.eraseIdx_sublist self.entries i
  exact ⟨valid.version, valid.bounded, sub.length_le.trans valid.capacity,
    fun e member => valid.permits e (sub.subset member),
    fun e member => valid.hosts e (sub.subset member), valid.ascending.sublist sub,
    fun e member => valid.below e (sub.subset member), valid.allocations.sublist (sub.map _),
    valid.operations.sublist (sub.map _), valid.generations.sublist (sub.map _),
    fun e member => valid.retirements e (sub.subset member), valid.owner⟩

theorem eraseIdx_ledger (valid : self.Valid) (complete : State.stage (self.entries.get i).state = .complete) :
    Ledger.Step self.stage (stage { self with entries := self.entries.eraseIdx i }) ∧
      stage { self with entries := self.entries.eraseIdx i } (self.entries.get i).permit.serial =
        .closed := by
  have member := List.getElem_mem i.isLt
  have before := stage_member valid member
  have gone : ∀ e ∈ self.entries.eraseIdx i, e.permit.serial ≠ (self.entries.get i).permit.serial := by
    intro e kept same
    obtain ⟨j, bound, apart, rfl⟩ := List.mem_eraseIdx_iff_getElem.mp kept
    have equal := valid.ascending.index_unique (i := ⟨j, bound⟩) (j := i) same
    exact apart (congrArg Fin.val equal)
  have closed : stage { self with entries := self.entries.eraseIdx i }
      (self.entries.get i).permit.serial = .closed := by
    rw [stage_absent gone]
    exact if_pos ⟨(valid.permits _ member).positive, valid.below _ member⟩
  refine ⟨.move (self.entries.get i).permit.serial ?_ ?_ ?_, closed⟩
  · intro unissued
    exact absurd (complete.symm.trans (before.symm.trans unissued)) (by decide)
  · rw [closed]
    exact (before.trans complete).symm ▸ (by decide : Stage.complete < Stage.closed)
  · intro serial different
    refine stage_congr valid (eraseIdx_valid valid) (fun e hit => ⟨?_, ?_⟩) Iff.rfl
    · intro old
      obtain ⟨j, bound, rfl⟩ := List.mem_iff_getElem.mp old
      refine List.mem_eraseIdx_iff_getElem.mpr ⟨j, bound, ?_, rfl⟩
      rintro rfl
      exact different hit.symm
    · exact (List.eraseIdx_sublist self.entries i).mem

end Forget

/-! ### Registering a batch -/

theorem checkBatch_serials {host : HostId} {previous : Option ℕ} {permits : List Permit}
    {first : ℕ} (start : ∀ n, previous = some n → first = n + 1)
    (head : previous = none → ∀ p ∈ permits.head?, first = p.serial)
    (checked : checkBatch host previous permits = .ok ()) :
    permits.map Permit.serial = List.range' first permits.length := by
  induction permits generalizing previous first with
  | nil => rfl
  | cons p rest ih =>
    obtain ⟨_, checked⟩ := seq_ok.mp checked
    obtain ⟨_, checked⟩ := seq_ok.mp checked
    obtain ⟨next, checked⟩ := seq_ok.mp checked
    have same : p.serial = first := by
      cases previous with
      | none => exact (head rfl p (by simp)).symm
      | some n =>
        have added : checkedAdd 64 n 1 = some p.serial := by simpa using ensure_ok.mp next
        exact (checkedAdd_eq added).trans (start n rfl).symm
    have tail := @ih (some p.serial) (first + 1) (fun n hit => by rw [← Option.some.inj hit, same])
      (fun missing => by cases missing) checked
    simp [List.range'_succ, tail, same]

theorem checkBatch_permits {host : HostId} {previous : Option ℕ} {permits : List Permit}
    (checked : checkBatch host previous permits = .ok ()) :
    ∀ p ∈ permits, p.Valid ∧ p.host = host := by
  induction permits generalizing previous with
  | nil => simp
  | cons p rest ih =>
    obtain ⟨valid, checked⟩ := seq_ok.mp checked
    obtain ⟨owner, checked⟩ := seq_ok.mp checked
    obtain ⟨_, checked⟩ := seq_ok.mp checked
    exact List.forall_mem_cons.mpr ⟨⟨Permit.validate_ok.mp valid, ensure_ok.mp owner⟩, ih checked⟩

theorem foldl_push_entries (self : Authority) (permits : List Permit) :
    (permits.foldl push self).entries =
      self.entries ++ permits.map fun p => { permit := p, state := .active } := by
  induction permits generalizing self with
  | nil => simp
  | cons p rest ih => simp [ih, push]

theorem foldl_push_member {self : Authority} {permits : List Permit} {e : Entry}
    (member : e ∈ (permits.foldl push self).entries) :
    e ∈ self.entries ∨ ∃ p ∈ permits, e = { permit := p, state := .active } := by
  rw [foldl_push_entries, List.mem_append] at member
  refine member.imp_right fun fresh => ?_
  obtain ⟨p, listed, same⟩ := List.mem_map.mp fresh
  exact ⟨p, listed, same.symm⟩

theorem foldl_push_version (self : Authority) (permits : List Permit) :
    (permits.foldl push self).version = self.version := by
  induction permits generalizing self with
  | nil => rfl
  | cons p rest ih => exact ih (self.push p)

theorem foldl_push_host (self : Authority) (permits : List Permit) :
    (permits.foldl push self).host = self.host := by
  induction permits generalizing self with
  | nil => rfl
  | cons p rest ih => exact ih (self.push p)

theorem foldl_push_through {self : Authority} {permits : List Permit}
    (serials : permits.map Permit.serial = List.range' (self.through + 1) permits.length) :
    (permits.foldl push self).through = self.through + permits.length := by
  induction permits generalizing self with
  | nil => rfl
  | cons p rest ih =>
    obtain ⟨head, tail⟩ : p.serial = self.through + 1 ∧
        rest.map Permit.serial = List.range' (self.through + 1 + 1) rest.length := by
      simpa [List.range'_succ] using serials
    have grown := @ih (self.push p) (by simpa [push, head] using tail)
    rw [List.foldl_cons, grown, List.length_cons]
    simp only [push, head]
    omega

theorem foldl_push_ledger {self : Authority} {permits : List Permit} (valid : self.Valid)
    (after : (permits.foldl push self).Valid)
    (serials : permits.map Permit.serial = List.range' (self.through + 1) permits.length) :
    Ledger.Step self.stage (permits.foldl push self).stage := by
  have entries := foldl_push_entries self permits
  have through := foldl_push_through serials
  have batch : ∀ n, n ∈ permits.map Permit.serial ↔
      self.through < n ∧ n ≤ self.through + permits.length := by
    intro n
    rw [serials, List.mem_range'_1]
    omega
  refine .issue { n | n ∈ permits.map Permit.serial } ?_ ?_ ?_
  · intro n member
    have above := ((batch n).mp member).1
    rw [stage_absent fun e old same => absurd (valid.below e old) (by omega)]
    exact if_neg (by omega)
  · intro n member
    obtain ⟨p, included, rfl⟩ := List.mem_map.mp member
    refine stage_member (e := { permit := p, state := .active }) after ?_
    rw [entries]
    exact List.mem_append_right _ (List.mem_map_of_mem included)
  · intro n outside
    have apart := mt (batch n).mpr outside
    refine stage_congr valid after (fun e hit => ?_) (by rw [through]; omega)
    rw [entries, List.mem_append]
    refine ⟨Or.inl, fun either => either.resolve_right fun fresh => outside ?_⟩
    obtain ⟨p, included, rfl⟩ := List.mem_map.mp fresh
    exact hit ▸ List.mem_map_of_mem included

/-! ### One request -/

section Requests
variable {json : Codec Authority (List UInt8)} {intents : Codec Intent (List UInt8)}
  {sha256 : List UInt8 → Digest} {self : Authority}

/-- The proposal of a batch that `register` is about to publish. -/
structure Batch (table : Authority) (permits : List Permit) (proposal : Authority) : Prop where
  pushed : proposal = permits.foldl push table
  serials : permits.map Permit.serial = List.range' (table.through + 1) permits.length
  valid : ∀ p ∈ permits, p.Valid ∧ p.host = table.host
  bounded : permits.length ≤ MAX_BATCH
  capacity : table.entries.length + permits.length ≤ MAX_ENTRIES

theorem proposed_batch {permits : List Permit} {next : Authority}
    (h : self.proposed json permits = .ok (some next)) :
    Batch self permits next ∧ ∃ bytes restored, next.encode json = .ok bytes ∧
      decode json bytes self.host self.through = .ok restored := by
  obtain ⟨shape, h⟩ := seq_ok.mp h
  obtain ⟨checked, h⟩ := seq_ok.mp h
  cases permits with
  | nil => cases h
  | cons first rest =>
    dsimp only at h
    split at h
    · obtain ⟨_, h⟩ := seq_ok.mp h
      cases h
    · obtain ⟨contiguous, h⟩ := seq_ok.mp h
      obtain ⟨capacity, h⟩ := seq_ok.mp h
      obtain ⟨bytes, written, h⟩ := bind_ok.mp h
      obtain ⟨restored, read, h⟩ := bind_ok.mp h
      obtain rfl := Option.some.inj (pure_ok.mp h)
      have start : first.serial = self.through + 1 := checkedAdd_eq (ensure_ok.mp contiguous)
      have bounded : (first :: rest).length ≤ MAX_BATCH := by
        simpa only [not_or, not_lt] using (not_or.mp (ensure_ok.mp shape)).2
      refine ⟨⟨rfl, ?_, checkBatch_permits checked, bounded, ensure_ok.mp capacity⟩,
        bytes, restored, written, read⟩
      exact checkBatch_serials (fun _ hit => by cases hit)
        (fun _ p member => by obtain rfl := Option.some.inj member; exact start.symm) checked

theorem Batch.parses {permits : List Permit} {next : Authority} (batch : Batch self permits next)
    (valid : self.Valid) : next.Parses := by
  obtain rfl := batch.pushed
  refine ⟨by rw [foldl_push_host]; exact valid.owner, fun e member => ?_, fun e member => ?_⟩
  · rcases foldl_push_member member with old | ⟨p, listed, rfl⟩
    · exact valid.permits e old
    · exact (batch.valid p listed).1
  · rcases foldl_push_member member with old | ⟨p, listed, rfl⟩
    · exact valid.retirements e old
    · rfl

/-- The proposal was checked by reading its own encoding. -/
theorem proposed_valid {permits : List Permit} {next : Authority} (keeps : json.Keeps next)
    (h : self.proposed json permits = .ok (some next)) : next.Valid := by
  obtain ⟨_, bytes, restored, written, read⟩ := proposed_batch h
  exact (decode_encode keeps written read).2

theorem completionState_ok {intent : Intent} {state : State}
    (h : completionState intents sha256 intent = .ok state) :
    intent.retirement.uuid.Valid ∧ ∃ digest, state = .complete intent.retirement digest := by
  obtain ⟨digest, read, h⟩ := bind_ok.mp h
  obtain ⟨_, h⟩ := seq_ok.mp h
  obtain rfl := pure_ok.mp h
  cases digested : intent.digest intents sha256 with
  | error e => rw [digested] at read; cases read
  | ok value => exact ⟨Intent.validate_retirement (Intent.digest_ok digested), digest, rfl⟩

/-- What one request does to the table, read as a ledger. -/
structure Advances (before after : Authority) (outcome : Except Error Unit)
    (retired : Option ℕ) : Prop where
  valid : after.Valid
  ledger : Ledger.Step before.stage after.stage
  host : after.host = before.host
  through : before.through ≤ after.through
  withdrawn : outcome = .ok () → ∀ n, retired = some n → .active < after.stage n

theorem Advances.unchanged {outcome : Except Error Unit} {retired : Option ℕ} (valid : self.Valid)
    (withdrawn : outcome = .ok () → ∀ n, retired = some n → .active < self.stage n) :
    Advances self self outcome retired :=
  ⟨valid, .stutter, rfl, le_rfl, withdrawn⟩

/-- The parser gives back every value it can return at all. -/
def Reads (json : Codec Authority (List UInt8)) : Prop :=
  ∀ table : Authority, table.Parses → json.Keeps table

theorem register_advances {permits : List Permit} (valid : self.Valid)
    (keeps : ∀ next, self.proposed json permits = .ok (some next) → json.Keeps next) :
    Advances self (self.register json permits).1 (self.register json permits).2 none := by
  unfold register
  split
  · exact .unchanged valid fun _ _ hit => by cases hit
  · exact .unchanged valid fun _ _ hit => by cases hit
  next next grown =>
    have after := proposed_valid (keeps next grown) grown
    obtain ⟨rfl, serials, _, _, _⟩ := (proposed_batch grown).1
    have through := foldl_push_through serials
    refine ⟨after, foldl_push_ledger valid after serials, ?_, by simp only [through]; omega,
      fun _ _ hit => by cases hit⟩
    exact foldl_push_host self permits

theorem fence_advances (valid : self.Valid) (permit : Permit) (retirement : OperationId) :
    Advances self (self.fence permit retirement).1 (self.fence permit retirement).2
      (some permit.serial) := by
  unfold fence
  split
  · exact .unchanged valid fun failed => by cases failed
  next shape =>
    split
    · exact .unchanged valid fun failed => by cases failed
    next i found =>
      have owner : (self.entries.get i).permit.serial = permit.serial :=
        congrArg Permit.serial (index_ok found).2
      have current := stage_get valid i
      split
      next active =>
        change (self.entries.get i).state = _ at active
        obtain ⟨moved, fenced⟩ := @setState_ledger self i (.fenced retirement) valid shape
          (by rw [active]; exact (by decide : Stage.active < .fenced))
        refine ⟨setState_valid valid shape, moved, rfl, le_rfl, fun _ n hit => ?_⟩
        obtain rfl := Option.some.inj hit
        rw [← owner, fenced]
        exact (by decide : Stage.active < .fenced)
      all_goals
        rename_i stored
        change (self.entries.get i).state = _ at stored
        split
        · refine .unchanged valid fun _ n hit => ?_
          obtain rfl := Option.some.inj hit
          rw [← owner, current, stored]
          first | exact (by decide : Stage.active < .fenced)
                | exact (by decide : Stage.active < .complete)
        · exact .unchanged valid fun failed => by cases failed

theorem complete_advances (valid : self.Valid) (intent : Intent) :
    Advances self (self.complete intents sha256 intent).1 (self.complete intents sha256 intent).2
      (some intent.permit.serial) := by
  unfold complete
  split
  · exact .unchanged valid fun failed => by cases failed
  next state made =>
    obtain ⟨shape, digest, rfl⟩ := completionState_ok made
    have retirement : State.validRetirement (.complete intent.retirement digest) = .ok () :=
      validUuid_ok.mpr shape
    split
    · exact .unchanged valid fun failed => by cases failed
    next i found =>
      have owner : (self.entries.get i).permit.serial = intent.permit.serial :=
        congrArg Permit.serial (index_ok found).2
      have current := stage_get valid i
      split
      next fenced =>
        change (self.entries.get i).state = _ at fenced
        obtain ⟨moved, completed⟩ := @setState_ledger self i
          (.complete intent.retirement digest) valid retirement
          (by rw [fenced]; exact (by decide : Stage.fenced < .complete))
        refine ⟨setState_valid valid retirement, moved, rfl, le_rfl, fun _ n hit => ?_⟩
        obtain rfl := Option.some.inj hit
        rw [← owner, completed]
        exact (by decide : Stage.active < .complete)
      · split
        next retained =>
          change (self.entries.get i).state = _ at retained
          refine .unchanged valid fun _ n hit => ?_
          obtain rfl := Option.some.inj hit
          rw [← owner, current, retained]
          exact (by decide : Stage.active < .complete)
        · exact .unchanged valid fun failed => by cases failed

theorem forget_advances (valid : self.Valid) (intent : Intent) :
    Advances self (self.forget intents sha256 intent).1 (self.forget intents sha256 intent).2
      (some intent.permit.serial) := by
  unfold forget
  split
  · exact .unchanged valid fun failed => by cases failed
  next completed =>
    split
    · exact .unchanged valid fun failed => by cases failed
    next i found =>
      obtain ⟨state, made, completed⟩ := bind_ok.mp completed
      obtain ⟨read, readState, completed⟩ := bind_ok.mp completed
      obtain rfl := ensure_ok.mp completed
      obtain ⟨_, digest, rfl⟩ := completionState_ok made
      obtain ⟨e, member, same, stored⟩ := state_ok readState
      have owner := (index_ok found).2
      have complete : State.stage (self.entries.get i).state = .complete := by
        rw [← stage_get valid i]
        have staged := stage_member valid member
        rw [stored, same] at staged
        exact (congrArg (fun p => self.stage p.serial) owner).trans staged
      obtain ⟨moved, closed⟩ := eraseIdx_ledger valid complete
      refine ⟨eraseIdx_valid valid, moved, rfl, le_rfl, fun _ n hit => ?_⟩
      obtain rfl := Option.some.inj hit
      rw [← congrArg Permit.serial owner]
      exact closed ▸ (by decide : Stage.active < Stage.closed)

theorem restart_same (keeps : json.Keeps self) (host : HostId) (minimumThrough : ℕ) :
    (self.restart json host minimumThrough).1 = self := by
  unfold restart
  split
  · rfl
  next bytes written =>
    split
    · rfl
    next restored read => exact (decode_encode keeps written read).1

/-- What a request needs of the codec: this table is read back, and so is its proposal. -/
structure Reliable (json : Codec Authority (List UInt8)) (table : Authority) (request : Request) :
    Prop where
  keeps : json.Keeps table
  proposal : ∀ permits, request = .register permits → ∀ next,
    table.proposed json permits = .ok (some next) → json.Keeps next

theorem Valid.reliable (valid : self.Valid) (reads : Reads json) (request : Request) :
    Reliable json self request :=
  ⟨reads self valid.parses,
    fun _ _ next grown => reads next ((proposed_batch grown).1.parses valid)⟩

theorem apply_advances {request : Request} (reliable : Reliable json self request)
    (valid : self.Valid) :
    Advances self (self.apply json intents sha256 request).1
      (self.apply json intents sha256 request).2 request.retires := by
  cases request with
  | register permits => exact register_advances valid (reliable.proposal permits rfl)
  | fence permit retirement => exact fence_advances valid permit retirement
  | complete intent => exact complete_advances valid intent
  | forget intent => exact forget_advances valid intent
  | restart host minimumThrough =>
    simp only [apply, restart_same reliable.keeps]
    exact .unchanged valid fun _ _ hit => by cases hit

end Requests

/-! ### Every run -/

section Runs
variable (json : Codec Authority (List UInt8)) (intents : Codec Intent (List UInt8))
  (sha256 : List UInt8 → Digest)

def runs (start : Authority) (requests : List Request) : Authority :=
  Run.run (step json intents sha256) start requests

variable {json intents sha256} {start : Authority}

theorem runs_append (before after : List Request) :
    runs json intents sha256 start (before ++ after) =
      runs json intents sha256 (runs json intents sha256 start before) after :=
  Run.run_append start before after

theorem step_valid (reads : Reads json) (self : Authority) (request : Request)
    (valid : self.Valid) : (self.step json intents sha256 request).Valid :=
  (apply_advances (valid.reliable reads request) valid).valid

theorem runs_through (reads : Reads json) (valid : start.Valid)
    (requests : List Request) :
    start.through ≤ (runs json intents sha256 start requests).through := by
  have grows : ∀ (self : Authority) request, self.Valid →
      self.through ≤ (self.step json intents sha256 request).through :=
    fun self request valid => (apply_advances (valid.reliable reads request) valid).through
  exact Run.run_mono (step_valid reads) grows valid

end Runs

/-! A new table of one host, with the bytes that it is stored as. -/

def sampleHost : HostId := ⟨0x01900000000070008000000000000001#128⟩

def sampleAuthority : Authority :=
  { version := 1, host := sampleHost, through := 0, entries := [] }

end HudsonSandbox.AllocationAuthority.Authority
