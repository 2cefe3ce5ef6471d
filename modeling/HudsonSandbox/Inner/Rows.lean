import HudsonSandbox.Inner.Boot

/-!
# What every journal of a host satisfies

The rows of one journal: what they hold of the host's capacity, and how the rows of one sandbox
follow one another. `Sound` is kept by every change that a request makes to a row.
-/

namespace HudsonSandbox.Inner
open Checked Supervisor Host Maps
open LiveOutput hiding Status

abbrev Records := AList fun _ : AllocationId => Row

/-! ### What the rows hold of the capacity -/

def memoryHeld (start : Resources) : ℕ := start.memoryMib + 128
def diskHeld (start : Resources) : ℕ := start.diskMib + 401

/-- What a row holds as long as it is not released. -/
def Row.held (charge : Resources → ℕ) (row : Row) : ℕ :=
  if row.record.released = true then 0 else (row.start.map charge).getD 0

structure Within (capacity : Capacity) (records : Records) : Prop where
  vcpu : total (Row.held Resources.vcpu) records ≤ capacity.vcpu
  memory : total (Row.held memoryHeld) records ≤ capacity.memoryMib
  disk : total (Row.held diskHeld) records ≤ capacity.diskMib

/-- Of two admitted rows of one sandbox, the one of the lower generation is released. -/
def Row.Precedes (row later : Row) : Prop :=
  row.record.owner.generation < later.record.owner.generation ∧ row.record.released = true

structure Row.Sound (row : Row) : Prop where
  start : row.start.isSome = row.record.manifest.isSome
  supported : ∀ start ∈ row.start, Supported start
  created : row.record.create.isSome = row.record.manifest.isSome
  dispatched : row.record.dispatched = true → row.Created
  released : row.record.released = true → row.record.stopped = true

/-- Gates are numbered below `gates`. -/
structure Sound (capacity : Capacity) (gates : ℕ) (records : Records) : Prop where
  rows : ∀ id row, records.lookup id = some row → row.Sound
  keyed : ∀ id row, records.lookup id = some row → row.record.owner.allocationId = id
  below : ∀ id row, records.lookup id = some row → row.gate < gates
  apart : ∀ a b ra rb, records.lookup a = some ra → records.lookup b = some rb → ra.gate = rb.gate →
    a = b
  within : Within capacity records
  order : ∀ a b ra rb, records.lookup a = some ra → records.lookup b = some rb → a ≠ b →
    ra.record.owner.sandboxId = rb.record.owner.sandboxId → ra.Created → rb.Created →
      ra.Precedes rb ∨ rb.Precedes ra

/-- What a request other than an admission may make of a row. -/
structure Row.Follows (before after : Row) : Prop where
  owner : after.record.owner = before.record.owner
  gate : after.gate = before.gate
  start : after.start = before.start
  create : after.record.create = before.record.create
  manifest : after.record.manifest = before.record.manifest
  dispatches : after.record.dispatched = true → before.record.dispatched = true ∨ before.Created
  dispatched : before.record.dispatched = true → after.record.dispatched = true
  stopped : before.record.stopped = true → after.record.stopped = true
  released : before.record.released = true → after.record.released = true
  releases : after.record.released = true → before.record.released = true ∨ after.record.stopped = true
  retirement : before.record.retirement ≠ none → after.record.retirement ≠ none

/-- A row that no create has reached. -/
structure Row.Unused (row : Row) : Prop where
  start : row.start = none
  create : row.record.create = none
  manifest : row.record.manifest = none
  dispatched : row.record.dispatched = false
  released : row.record.released = false

section
variable {capacity : Capacity} {gates : ℕ} {records : Records} {id : AllocationId} {row after : Row}

theorem Row.Follows.created (follows : row.Follows after) : after.Created ↔ row.Created := by
  unfold Row.Created
  rw [follows.manifest]

theorem Row.Follows.sound (follows : row.Follows after) (sound : row.Sound) : after.Sound := by
  refine ⟨?_, ?_, ?_, fun dispatched => ?_, fun released => ?_⟩
  · rw [follows.start, follows.manifest, sound.start]
  · rw [follows.start]
    exact sound.supported
  · rw [follows.create, follows.manifest, sound.created]
  · rw [follows.created]
    exact (follows.dispatches dispatched).elim sound.dispatched id
  · exact (follows.releases released).elim (fun before => follows.stopped (sound.released before)) id

theorem Row.Follows.held_le (follows : row.Follows after) (charge : Resources → ℕ) :
    after.held charge ≤ row.held charge := by
  unfold Row.held
  rw [follows.start]
  by_cases before : row.record.released = true
  · rw [if_pos before, if_pos (follows.released before)]
  · rw [if_neg before]
    split
    · exact Nat.zero_le _
    · exact Nat.le_refl _

theorem Row.Follows.precedes {later next : Row} (follows : row.Follows after) (onward : later.Follows next)
    (precedes : row.Precedes later) : after.Precedes next := by
  unfold Row.Precedes
  rw [follows.owner, onward.owner]
  exact ⟨precedes.1, follows.released precedes.2⟩

theorem Row.Follows.refl (row : Row) : row.Follows row :=
  ⟨rfl, rfl, rfl, rfl, rfl, .inl, id, id, id, .inl, id⟩

theorem Row.Unused.sound (unused : row.Unused) : row.Sound := by
  refine ⟨?_, ?_, ?_, ?_, ?_⟩
  · rw [unused.start, unused.manifest]
    rfl
  · rw [unused.start]
    intro start absent
    cases absent
  · rw [unused.create, unused.manifest]
    rfl
  · rw [unused.dispatched]
    intro absent
    cases absent
  · rw [unused.released]
    intro absent
    cases absent

theorem Row.Unused.held (unused : row.Unused) (charge : Resources → ℕ) : row.held charge = 0 := by
  unfold Row.held
  rw [unused.start]
  simp

theorem Row.Unused.not_created (unused : row.Unused) : ¬row.Created := by
  unfold Row.Created
  rw [unused.manifest]
  simp

theorem Sound.mono {more : ℕ} (sound : Sound capacity gates records) (le : gates ≤ more) :
    Sound capacity more records :=
  { sound with below := fun id row found => (sound.below id row found).trans_le le }

theorem Sound.empty : Sound capacity gates ∅ := by
  refine ⟨?_, ?_, ?_, ?_, ⟨Nat.zero_le _, Nat.zero_le _, Nat.zero_le _⟩, ?_⟩
  · intro id row found
    cases found
  · intro id row found
    cases found
  · intro id row found
    cases found
  · intro a b ra rb found
    cases found
  · intro a b ra rb found
    cases found

/-! ### One row changes -/

theorem total_follows (follows : row.Follows after) (charge : Resources → ℕ)
    (found : records.lookup id = some row) :
    total (Row.held charge) (records.insert id after) ≤ total (Row.held charge) records := by
  have moved := total_replace (Row.held charge) after found
  have less := follows.held_le charge
  omega

theorem Sound.replace (sound : Sound capacity gates records) (found : records.lookup id = some row)
    (follows : row.Follows after) : Sound capacity gates (records.insert id after) := by
  -- Every row of the new table follows the row that the old one has under the same name.
  have old : ∀ other next, (records.insert id after).lookup other = some next →
      ∃ before, records.lookup other = some before ∧ before.Follows next := by
    intro other next present
    rcases lookup_insert_some present with ⟨rfl, rfl⟩ | ⟨_, kept⟩
    · exact ⟨row, found, follows⟩
    · exact ⟨next, kept, .refl next⟩
  refine ⟨?_, ?_, ?_, ?_, ⟨?_, ?_, ?_⟩, ?_⟩
  · intro other next present
    obtain ⟨before, kept, grows⟩ := old other next present
    exact grows.sound (sound.rows other before kept)
  · intro other next present
    obtain ⟨before, kept, grows⟩ := old other next present
    rw [grows.owner]
    exact sound.keyed other before kept
  · intro other next present
    obtain ⟨before, kept, grows⟩ := old other next present
    rw [grows.gate]
    exact sound.below other before kept
  · intro a b ra rb first second same
    obtain ⟨one, keptA, growsA⟩ := old a ra first
    obtain ⟨two, keptB, growsB⟩ := old b rb second
    rw [growsA.gate, growsB.gate] at same
    exact sound.apart a b one two keptA keptB same
  · exact (total_follows follows _ found).trans sound.within.vcpu
  · exact (total_follows follows _ found).trans sound.within.memory
  · exact (total_follows follows _ found).trans sound.within.disk
  · intro a b ra rb first second different same createdA createdB
    obtain ⟨one, keptA, growsA⟩ := old a ra first
    obtain ⟨two, keptB, growsB⟩ := old b rb second
    rw [growsA.owner, growsB.owner] at same
    rcases sound.order a b one two keptA keptB different same (growsA.created.mp createdA)
      (growsB.created.mp createdB) with less | more
    · exact .inl (growsA.precedes growsB less)
    · exact .inr (growsB.precedes growsA more)

/-- A fresh row takes the next gate. -/
theorem Sound.insert (sound : Sound capacity gates records) (absent : records.lookup id = none)
    (unused : after.Unused) (named : after.record.owner.allocationId = id) (gate : after.gate = gates) :
    Sound capacity (gates + 1) (records.insert id after) := by
  have missing : id ∉ records := AList.lookup_eq_none.mp absent
  have sums : ∀ charge, total (Row.held charge) (records.insert id after) = total (Row.held charge) records := by
    intro charge
    rw [total_insert_absent _ missing, unused.held, Nat.zero_add]
  refine ⟨?_, ?_, ?_, ?_, ⟨?_, ?_, ?_⟩, ?_⟩
  · intro other next present
    rcases lookup_insert_some present with ⟨rfl, rfl⟩ | ⟨_, kept⟩
    · exact unused.sound
    · exact sound.rows other next kept
  · intro other next present
    rcases lookup_insert_some present with ⟨rfl, rfl⟩ | ⟨_, kept⟩
    · exact named
    · exact sound.keyed other next kept
  · intro other next present
    rcases lookup_insert_some present with ⟨rfl, rfl⟩ | ⟨_, kept⟩
    · omega
    · exact (sound.below other next kept).trans (Nat.lt_succ_self gates)
  · intro a b ra rb first second same
    rcases lookup_insert_some first with ⟨rfl, rfl⟩ | ⟨_, keptA⟩ <;>
      rcases lookup_insert_some second with ⟨rfl, rfl⟩ | ⟨_, keptB⟩
    · rfl
    · have low := sound.below b rb keptB
      omega
    · have low := sound.below a ra keptA
      omega
    · exact sound.apart a b ra rb keptA keptB same
  · rw [sums]
    exact sound.within.vcpu
  · rw [sums]
    exact sound.within.memory
  · rw [sums]
    exact sound.within.disk
  · intro a b ra rb first second different same createdA createdB
    rcases lookup_insert_some first with ⟨rfl, rfl⟩ | ⟨_, keptA⟩
    · exact absurd createdA unused.not_created
    rcases lookup_insert_some second with ⟨rfl, rfl⟩ | ⟨_, keptB⟩
    · exact absurd createdB unused.not_created
    · exact sound.order a b ra rb keptA keptB different same createdA createdB

theorem lookup_erase_some {other : AllocationId} (found : (records.erase id).lookup other = some row) :
    other ≠ id ∧ records.lookup other = some row := by
  by_cases same : other = id
  · subst same
    rw [AList.lookup_erase] at found
    cases found
  · rw [AList.lookup_erase_ne same] at found
    exact ⟨same, found⟩

theorem total_erase_le (charge : Resources → ℕ) :
    total (Row.held charge) (records.erase id) ≤ total (Row.held charge) records :=
  total_sublist _ (List.kerase_sublist id records.entries)

theorem Sound.erase (sound : Sound capacity gates records) (id : AllocationId) :
    Sound capacity gates (records.erase id) := by
  refine ⟨?_, ?_, ?_, ?_, ⟨?_, ?_, ?_⟩, ?_⟩
  · intro other row found
    exact sound.rows other row (lookup_erase_some found).2
  · intro other row found
    exact sound.keyed other row (lookup_erase_some found).2
  · intro other row found
    exact sound.below other row (lookup_erase_some found).2
  · intro a b ra rb first second
    exact sound.apart a b ra rb (lookup_erase_some first).2 (lookup_erase_some second).2
  · exact (total_erase_le _).trans sound.within.vcpu
  · exact (total_erase_le _).trans sound.within.memory
  · exact (total_erase_le _).trans sound.within.disk
  · intro a b ra rb first second
    exact sound.order a b ra rb (lookup_erase_some first).2 (lookup_erase_some second).2

/-! ### Admission -/

theorem supported_words {start : Resources} (supported : Supported start) :
    start.vcpu ≤ 4 ∧ wrappingAdd start.memoryMib 128 = memoryHeld start ∧
      wrappingAdd start.diskMib 401 = diskHeld start := by
  obtain ⟨⟨_, cpu⟩, ⟨_, memory⟩, _, disk⟩ := supported
  unfold MAX_VCPU at cpu
  unfold MAX_MEMORY_MIB at memory
  unfold MAX_DISK_MIB at disk
  refine ⟨cpu, ?_, ?_⟩
  · unfold wrappingAdd memoryHeld
    omega
  · unfold wrappingAdd diskHeld
    omega

/-- What a list of rows holds. -/
def sumHeld (charge : Resources → ℕ) (entries : List (Σ _ : AllocationId, Row)) : ℕ :=
  (entries.map fun entry => entry.2.held charge).sum

theorem sumHeld_cons (charge : Resources → ℕ) (id : AllocationId) (row : Row)
    (rest : List (Σ _ : AllocationId, Row)) :
    sumHeld charge (⟨id, row⟩ :: rest) = row.held charge + sumHeld charge rest := by
  unfold sumHeld
  rw [List.map_cons, List.sum_cons]

/-- A machine word counts from `sum` over the entries without saturating. -/
structure Room (sum : Reserved) (entries : List (Σ _ : AllocationId, Row)) : Prop where
  cpu : sum.cpu + sumHeld Resources.vcpu entries < 2 ^ 64
  memory : sum.memory + sumHeld memoryHeld entries < 2 ^ 64
  disk : sum.disk + sumHeld diskHeld entries < 2 ^ 64

/-- The result of a survey: what was reserved before and what the entries hold. -/
structure Counted (sum : Reserved) (entries : List (Σ _ : AllocationId, Row)) (result : Reserved) : Prop where
  cpu : result.cpu = sum.cpu + sumHeld Resources.vcpu entries
  memory : result.memory = sum.memory + sumHeld memoryHeld entries
  disk : result.disk = sum.disk + sumHeld diskHeld entries

/-- One turn of the loop adds what the row holds, exactly. -/
theorem counted_row {sum : Reserved} {rest : List (Σ _ : AllocationId, Row)} {start : Resources}
    (given : row.start = some start) (supported : Supported start) (room : Room sum (⟨id, row⟩ :: rest)) :
    let next := if row.record.released = true then sum else sum.add start
    next.cpu = sum.cpu + row.held Resources.vcpu ∧ next.memory = sum.memory + row.held memoryHeld ∧
      next.disk = sum.disk + row.held diskHeld := by
  obtain ⟨_, memory, disk⟩ := supported_words supported
  obtain ⟨roomCpu, roomMemory, roomDisk⟩ := room
  rw [sumHeld_cons] at roomCpu roomMemory roomDisk
  unfold Row.held at roomCpu roomMemory roomDisk ⊢
  rw [given] at roomCpu roomMemory roomDisk ⊢
  by_cases released : row.record.released = true
  · simp only [released, if_true]
    exact ⟨rfl, rfl, rfl⟩
  · rw [if_neg released] at roomCpu roomMemory roomDisk
    simp only [if_neg released, Reserved.add, saturatingAdd, memory, disk, Option.map_some, Option.getD_some] at *
    omega

theorem survey_ok {o : Ownership} {sum result : Reserved} {entries : List (Σ _ : AllocationId, Row)}
    (supported : ∀ entry ∈ entries, ∀ start ∈ entry.2.start, Supported start) (room : Room sum entries)
    (h : survey o sum entries = .ok result) :
    Counted sum entries result ∧ ∀ entry ∈ entries, entry.1 ≠ o.allocationId → ¬entry.2.Blocks o := by
  induction entries generalizing sum with
  | nil =>
    cases h
    exact ⟨⟨rfl, rfl, rfl⟩, fun entry absent => absurd absent List.not_mem_nil⟩
  | cons entry rest ih =>
    obtain ⟨id, row⟩ := entry
    obtain ⟨passes, h⟩ := seq_ok.mp h
    have passes := ensure_ok.mp passes
    have later : ∀ entry ∈ rest, ∀ start ∈ entry.2.start, Supported start :=
      fun entry member => supported entry (List.mem_cons_of_mem _ member)
    have free : ∀ next, (∀ entry ∈ rest, entry.1 ≠ o.allocationId → ¬entry.2.Blocks o) →
        next ∈ (⟨id, row⟩ :: rest : List (Σ _ : AllocationId, Row)) → next.1 ≠ o.allocationId →
          ¬next.2.Blocks o := by
      intro next others member different
      rcases List.mem_cons.mp member with rfl | member
      · exact fun blocks => passes ⟨different, blocks⟩
      · exact others next member different
    cases given : row.start with
    | none =>
      rw [given] at h
      have unheld : ∀ charge, row.held charge = 0 := by
        intro charge
        unfold Row.held
        rw [given]
        simp
      obtain ⟨roomCpu, roomMemory, roomDisk⟩ := room
      rw [sumHeld_cons, unheld, Nat.zero_add] at roomCpu roomMemory roomDisk
      obtain ⟨⟨cpu, memory, disk⟩, others⟩ := ih later ⟨roomCpu, roomMemory, roomDisk⟩ h
      refine ⟨⟨?_, ?_, ?_⟩, fun next member => free next others member⟩
      · rw [sumHeld_cons, unheld, Nat.zero_add, cpu]
      · rw [sumHeld_cons, unheld, Nat.zero_add, memory]
      · rw [sumHeld_cons, unheld, Nat.zero_add, disk]
    | some start =>
      rw [given] at h
      obtain ⟨nextCpu, nextMemory, nextDisk⟩ :=
        counted_row given (supported _ List.mem_cons_self start (Option.mem_def.mpr given)) room
      obtain ⟨roomCpu, roomMemory, roomDisk⟩ := room
      rw [sumHeld_cons] at roomCpu roomMemory roomDisk
      obtain ⟨⟨cpu, memory, disk⟩, others⟩ :=
        ih later ⟨by omega, by omega, by omega⟩ h
      refine ⟨⟨?_, ?_, ?_⟩, fun next member => free next others member⟩
      · rw [sumHeld_cons, cpu, nextCpu]
        omega
      · rw [sumHeld_cons, memory, nextMemory]
        omega
      · rw [sumHeld_cons, disk, nextDisk]
        omega

theorem Within.room (within : Within capacity records) : Room {} records.entries := by
  obtain ⟨cpu, memory, disk⟩ := within
  obtain ⟨cpuWord, memoryWord, diskWord⟩ := capacity.words
  refine ⟨?_, ?_, ?_⟩
  · exact (Nat.zero_add _).trans_lt (cpu.trans_lt cpuWord)
  · exact (Nat.zero_add _).trans_lt (memory.trans_lt memoryWord)
  · exact (Nat.zero_add _).trans_lt (disk.trans_lt diskWord)

/-- A survey of a sound table adds up exactly what its rows hold. -/
theorem Sound.survey (sound : Sound capacity gates records) {o : Ownership} {result : Reserved}
    (h : survey o {} records.entries = .ok result) :
    Counted {} records.entries result ∧
      ∀ id row, records.lookup id = some row → id ≠ o.allocationId → ¬row.Blocks o := by
  have supported : ∀ entry ∈ records.entries, ∀ start ∈ entry.2.start, Supported start := by
    intro entry member
    exact (sound.rows entry.1 entry.2 (AList.mem_lookup_iff.mpr member)).supported
  obtain ⟨counted, free⟩ := survey_ok supported sound.within.room h
  refine ⟨counted, fun id row found different => ?_⟩
  exact free ⟨id, row⟩ (AList.mem_lookup_iff.mp found) different

/-- The row that an admission saves. -/
def Row.entered (row : Row) (o : Ownership) (request : CreateRequest) (start : Resources) : Row :=
  { row with
    record := { row.record with create := some request, manifest := some (manifest o request) }
    start := some start }

/-- What an admission has checked of the other rows, and of its own. -/
structure Entered (capacity : Capacity) (records : Records) (o : Ownership) (request : CreateRequest)
    (start : Resources) (row : Row) : Prop where
  found : records.lookup o.allocationId = some row
  surveyed : ∃ sum, survey o {} records.entries = .ok sum ∧ Fits capacity sum start

theorem admitted_ok {j next : Journal} {o : Ownership} {request : CreateRequest} {start : Resources}
    (h : j.admitted capacity o request start = .ok (after, next)) :
    ∃ row, Entered capacity j.records o request start row ∧ after = row.entered o request start ∧
      next = { j with records := j.records.insert o.allocationId after } := by
  obtain ⟨sum, counted, h⟩ := bind_ok.mp h
  obtain ⟨fits, h⟩ := seq_ok.mp h
  obtain ⟨row, found, h⟩ := bind_ok.mp h
  obtain ⟨_, made, h⟩ := bind_ok.mp h
  cases made
  cases pure_ok.mp h
  exact ⟨row, ⟨okOr_ok.mp found, sum, counted, ensure_ok.mp fits⟩, rfl, rfl⟩

theorem entered_held (row : Row) (o : Ownership) (request : CreateRequest) (start : Resources)
    (charge : Resources → ℕ) : (row.entered o request start).held charge ≤ charge start := by
  unfold Row.held Row.entered
  split
  · exact Nat.zero_le _
  · exact Nat.le_refl _

/-- The other rows of the sandbox are older, stopped and released. -/
theorem not_blocks {o : Ownership} (free : ¬row.Blocks o) (same : row.record.owner.sandboxId = o.sandboxId) :
    row.record.owner.projectId = o.projectId ∧ row.record.owner.generation < o.generation ∧
      (row.Created → row.record.released = true) ∧ row.record.stopped = true := by
  by_contra other
  refine free ⟨same, ?_⟩
  by_contra calm
  simp only [not_or, not_not, Bool.not_eq_false] at calm
  obtain ⟨project, later, released, stopped⟩ := calm
  refine other ⟨project, not_le.mp later, fun created => ?_, stopped⟩
  by_contra unreleased
  exact released ⟨created, Bool.not_eq_true _ ▸ unreleased⟩

theorem Sound.entered (sound : Sound capacity gates records) {o : Ownership} {request : CreateRequest}
    {start : Resources} (supported : Supported start) (entered : Entered capacity records o request start row)
    (owner : sameAllocation row.record.owner o) :
    Sound capacity gates (records.insert o.allocationId (row.entered o request start)) := by
  obtain ⟨found, sum, surveyed, fits⟩ := entered
  obtain ⟨⟨cpu, memory, disk⟩, free⟩ := sound.survey surveyed
  obtain ⟨_, memoryWord, diskWord⟩ := supported_words supported
  obtain ⟨fitsCpu, fitsMemory, fitsDisk⟩ := fits
  have moved := fun charge => total_replace (Row.held charge) (row.entered o request start) found
  have share := fun charge => entered_held row o request start charge
  have rows := sound.rows o.allocationId row found
  have older : ∀ id other, records.lookup id = some other → id ≠ o.allocationId →
      other.record.owner.sandboxId = row.record.owner.sandboxId → other.Created →
        other.Precedes (row.entered o request start) := by
    intro id other kept different same created
    obtain ⟨_, generation, released, _⟩ := not_blocks (free id other kept different) (same.trans owner.2.2.1)
    exact ⟨generation.trans_eq owner.2.2.2.2.1.symm, released created⟩
  refine ⟨?_, ?_, ?_, ?_, ⟨?_, ?_, ?_⟩, ?_⟩
  · intro id next present
    rcases lookup_insert_some present with ⟨rfl, rfl⟩ | ⟨_, kept⟩
    · refine ⟨rfl, ?_, rfl, fun _ => rfl, rows.released⟩
      intro given same
      cases same
      exact supported
    · exact sound.rows id next kept
  · intro id next present
    rcases lookup_insert_some present with ⟨rfl, rfl⟩ | ⟨_, kept⟩
    · exact owner.2.2.2.1
    · exact sound.keyed id next kept
  · intro id next present
    rcases lookup_insert_some present with ⟨rfl, rfl⟩ | ⟨_, kept⟩
    · exact sound.below _ row found
    · exact sound.below id next kept
  · intro a b ra rb first second same
    rcases lookup_insert_some first with ⟨rfl, rfl⟩ | ⟨_, keptA⟩ <;>
      rcases lookup_insert_some second with ⟨rfl, rfl⟩ | ⟨_, keptB⟩
    · rfl
    · exact sound.apart _ b row rb found keptB same
    · exact sound.apart a _ ra row keptA found same
    · exact sound.apart a b ra rb keptA keptB same
  · have change := moved Resources.vcpu
    have own := share Resources.vcpu
    have before := sound.within.vcpu
    have counted : sum.cpu = 0 + Maps.total (Row.held Resources.vcpu) records := cpu
    omega
  · have change := moved memoryHeld
    have own := share memoryHeld
    have before := sound.within.memory
    have counted : sum.memory = 0 + Maps.total (Row.held memoryHeld) records := memory
    omega
  · have change := moved diskHeld
    have own := share diskHeld
    have before := sound.within.disk
    have counted : sum.disk = 0 + Maps.total (Row.held diskHeld) records := disk
    omega
  · intro a b ra rb first second different same createdA createdB
    rcases lookup_insert_some first with ⟨rfl, rfl⟩ | ⟨_, keptA⟩ <;>
      rcases lookup_insert_some second with ⟨rfl, rfl⟩ | ⟨distinct, keptB⟩
    · exact absurd rfl different
    · exact .inr (older b rb keptB distinct same.symm createdB)
    · exact .inl (older a ra keptA different same createdA)
    · exact sound.order a b ra rb keptA keptB different same createdA createdB

/-! ### Starting a host -/

theorem Row.stop_follows (row : Row) : row.Follows row.stop :=
  ⟨rfl, rfl, rfl, rfl, rfl, .inl, id, fun _ => rfl, id, .inl, id⟩

theorem lookup_stop {next : Row} (found : (mapValues Row.stop records).lookup id = some next) :
    ∃ row, records.lookup id = some row ∧ row.stop = next := by
  rw [lookup_mapValues] at found
  exact Option.map_eq_some_iff.mp found

theorem held_stop (charge : Resources → ℕ) (row : Row) : row.stop.held charge = row.held charge := rfl

theorem Sound.stopAll (sound : Sound capacity gates records) :
    Sound capacity gates (mapValues Row.stop records) := by
  refine ⟨?_, ?_, ?_, ?_, ⟨?_, ?_, ?_⟩, ?_⟩
  · intro id next found
    obtain ⟨row, kept, rfl⟩ := lookup_stop found
    exact row.stop_follows.sound (sound.rows id row kept)
  · intro id next found
    obtain ⟨row, kept, rfl⟩ := lookup_stop found
    exact sound.keyed id row kept
  · intro id next found
    obtain ⟨row, kept, rfl⟩ := lookup_stop found
    exact sound.below id row kept
  · intro a b ra rb first second
    obtain ⟨one, keptA, rfl⟩ := lookup_stop first
    obtain ⟨two, keptB, rfl⟩ := lookup_stop second
    exact sound.apart a b one two keptA keptB
  · rw [total_mapValues _ (held_stop _)]
    exact sound.within.vcpu
  · rw [total_mapValues _ (held_stop _)]
    exact sound.within.memory
  · rw [total_mapValues _ (held_stop _)]
    exact sound.within.disk
  · intro a b ra rb first second
    obtain ⟨one, keptA, rfl⟩ := lookup_stop first
    obtain ⟨two, keptB, rfl⟩ := lookup_stop second
    exact sound.order a b one two keptA keptB

end
end HudsonSandbox.Inner
