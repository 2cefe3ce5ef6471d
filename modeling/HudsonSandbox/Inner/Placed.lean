import HudsonSandbox.Inner.Ledgers
import HudsonSandbox.Inner.Rows
import HudsonSandbox.Inner.System
import Mathlib.Data.List.Perm.Basic

/-!
# Where every request of a host stands

`Inv` ties the threads to the journal and to the launch authority: two threads never hold one gate
or one allocation's readers against each other, a thread that has seen its row under the gate still
finds it there, and a row that is gone stays gone because its serial is complete.
-/

namespace HudsonSandbox.Inner
open Checked AllocationAuthority AllocationRetirement Stored Host Ledger Maps
open LiveOutput hiding Status

namespace Point

/-- The gate has been looked up. -/
def looked : Point → Bool
  | .arriving _ | .checkpointing _ => false
  | _ => true

/-- The row has been seen under the gate, or is pinned. -/
def anchored : Point → Bool
  | .admitting .. | .preparing _ | .dispatching _ | .spawning _ | .fencing .. | .draining .. | .ticketing ..
  | .acknowledging .. | .planning .. | .unlinking .. | .finishing .. | .completing _ | .removing _
  | .reading => true
  | _ => false

/-- The allocation's readers are pinned. -/
def reads : Point → Bool
  | .reading => true
  | _ => false

end Point

/-- Nothing has stopped, released or retired the allocation. -/
structure Row.Live (row : Row) : Prop where
  retirement : row.record.retirement = none
  stopped : row.record.stopped = false
  released : row.record.released = false

/-- What a thread at this point still finds in its row. -/
def Point.Expects (row : Row) : Point → Prop
  | .admitting o _ => row.Live ∧ row.record.create = none ∧ sameAllocation row.record.owner o
  | .preparing _ | .dispatching _ => row.Live ∧ row.Created ∧ row.record.dispatched = false
  | .spawning _ => row.Live ∧ row.record.dispatched = true
  | .planning _ before _ => row = before
  | .unlinking _ before saved | .finishing _ before saved =>
    row = { before with metadataRetirement := some saved }
  | _ => True

/-- The allocation of a request that may insert or admit its row. -/
def Task.names : Task → Option AllocationId
  | .create o _ | .inspect o _ | .other o true => some o.allocationId
  | .lease .. | .previous _ | .reconcile _ | .other _ false => none

def Point.names : Point → Option AllocationId
  | .arriving task | .waiting task | .held task => task.names
  | .admitting o _ => some o.allocationId
  | .fencing request .. | .draining request _ | .ticketing request _ | .acknowledging request _
  | .regating request | .relocking request | .surveying request | .planning request ..
  | .unlinking request .. | .finishing request .. => some request.intent.permit.allocation
  | .completing request | .removing request | .syncing request | .closing request =>
    some request.claim.intent.permit.allocation
  | _ => none

/-- The stage that the allocation's serial is known to have reached. -/
def Point.knows : Point → Option Stage
  | .draining .. | .ticketing .. | .acknowledging .. | .regating _ | .relocking _ | .surveying _
  | .planning .. | .unlinking .. | .finishing .. => some .fenced
  | .removing _ | .syncing _ | .closing _ => some .complete
  | _ => none

def Point.acknowledges : Point → Bool
  | .acknowledging .. => true
  | _ => false

/-- A point that takes no more locks than another. -/
structure Point.Below (point before : Point) : Prop where
  gated : point.gated = true → before.gated = true
  drained : point.drained = true → before.drained = true
  reads : point.reads = true → before.reads = true
  looked : point.looked = true → before.looked = true

/-- A point under the gate at which nothing else is known or held. -/
structure Point.Quiet (point : Point) : Prop where
  drained : point.drained = false
  reads : point.reads = false
  anchored : point.anchored = false
  names : point.names = none
  knows : point.knows = none
  acknowledges : point.acknowledges = false

/-- The serial has reached the stage in every copy of the authority that a crash can leave. -/
def Known (issuer : Issuer) (s : Inner) (stage : Stage) (allocation : AllocationId) : Prop :=
  ∃ file, s.authority = some file ∧ file.Always (Past issuer stage allocation)

/-- The row of the allocation is gone for good. -/
def Gone (issuer : Issuer) (s : Inner) (allocation : AllocationId) : Prop :=
  s.journal.records.lookup allocation = none ∧ Known issuer s .complete allocation

structure Placed (issuer : Issuer) (s : Inner) (t : Thread) : Prop where
  gate : t.point.looked = true → t.gate < s.nextGate
  found : t.point.looked = true →
    (∃ row, s.journal.records.lookup t.allocation = some row ∧ row.gate = t.gate) ∨ Gone issuer s t.allocation
  expects : t.point.anchored = true → ∃ row, s.journal.records.lookup t.allocation = some row ∧
    row.gate = t.gate ∧ t.point.Expects row
  names : ∀ allocation ∈ t.point.names, allocation = t.allocation
  knows : ∀ stage ∈ t.point.knows, Known issuer s stage t.allocation
  tickets : t.point.acknowledges = true → ¬s.Pending t.allocation

structure Apart (t u : Thread) : Prop where
  gate : ∀ g, t.holds g → ¬u.holds g
  readers : ∀ g, t.drains g → ¬u.pins g
  pinned : ∀ g, u.drains g → ¬t.pins g

structure Inv (config : Config) (issuer : Issuer) (s : Inner) : Prop where
  journal : Sound config.capacity s.nextGate s.journal.records
  file : s.file.Always fun journal => Sound config.capacity s.nextGate journal.records
  down : s.up = false → s.threads = []
  authority : ∀ file ∈ s.authority, file.Always (Issued config.host issuer)
  threads : ∀ t ∈ s.threads, Placed issuer s t
  apart : s.threads.Pairwise Apart

/-- A thread that is off the list, with its row in hand. -/
structure Holding (config : Config) (issuer : Issuer) (s : Inner) (t : Thread) (row : Row) : Prop where
  inv : Inv config issuer s
  found : s.journal.records.lookup t.allocation = some row
  gate : row.gate = t.gate
  apart : ∀ u ∈ s.threads, Apart t u

/-- A thread that has been taken off the list. -/
structure Off (config : Config) (issuer : Issuer) (s : Inner) (t : Thread) : Prop where
  inv : Inv config issuer s
  placed : Placed issuer s t
  apart : ∀ u ∈ s.threads, Apart t u

/-! ### Threads -/

section
variable {config : Config} {texts : Texts} {issuer : Issuer} {s : Inner} {t u : Thread} {row : Row}

theorem Apart.symm (apart : Apart t u) : Apart u t :=
  ⟨fun g held other => apart.gate g other held, apart.pinned, apart.readers⟩

theorem Point.anchored_looked {point : Point} (anchored : point.anchored = true) : point.looked = true := by
  cases point <;> first | rfl | cases anchored

theorem Point.anchored_gated {point : Point} (anchored : point.anchored = true) :
    point.gated = true ∨ point = .reading := by
  cases point <;> first | exact .inl rfl | exact .inr rfl | cases anchored

theorem Point.gated_looked {point : Point} (gated : point.gated = true) : point.looked = true := by
  cases point <;> first | rfl | cases gated

theorem Point.reads_eq {point : Point} : point.reads = true ↔ point = .reading := by
  cases point <;> simp [Point.reads]

theorem Point.below_gated {point before : Point} (gated : before.gated = true) (drained : point.drained = false)
    (reads : point.reads = false) : point.Below before := by
  refine ⟨fun _ => gated, fun told => ?_, fun told => ?_, fun _ => Point.gated_looked gated⟩
  · cases drained.symm.trans told
  · cases reads.symm.trans told

theorem Point.drained_gated {point : Point} (drained : point.drained = true) : point.gated = true := by
  cases point <;> first | rfl | cases drained

/-- A thread that goes on to a point without new locks stays apart from the others. -/
theorem Apart.keep {point : Point} (apart : Apart t u) (below : point.Below t.point) :
    Apart { t with point } u := by
  refine ⟨fun g held => apart.gate g ⟨below.gated held.1, held.2⟩,
    fun g held => apart.readers g ⟨below.drained held.1, held.2⟩, fun g held pinned => ?_⟩
  exact apart.pinned g held ⟨Point.reads_eq.mp (below.reads (Point.reads_eq.mpr pinned.1)), pinned.2⟩

theorem Apart.of_free (gated : t.point.gated = false) (reading : t.point ≠ .reading) : Apart t u := by
  refine ⟨fun g held => ?_, fun g held => ?_, fun g _ pinned => reading pinned.1⟩
  · cases gated.symm.trans held.1
  · cases gated.symm.trans (Point.drained_gated held.1)

theorem take_off {index : ℕ} (at_ : s.threads[index]? = some t) :
    s.threads.Perm (t :: s.threads.eraseIdx index) := by
  obtain ⟨low, rfl⟩ := List.getElem?_eq_some_iff.mp at_
  exact (List.getElem_cons_eraseIdx_perm low).symm

/-! ### Changes that rows and threads do not see -/

theorem Known.congr {s' : Inner} {stage : Stage} {allocation : AllocationId}
    (authority : s'.authority = s.authority) (known : Known issuer s stage allocation) :
    Known issuer s' stage allocation := by
  obtain ⟨file, has, past⟩ := known
  exact ⟨file, authority.trans has, past⟩

theorem Placed.congr {s' : Inner} (placed : Placed issuer s t)
    (records : s'.journal.records = s.journal.records) (gates : s.nextGate ≤ s'.nextGate)
    (known : ∀ stage, Known issuer s stage t.allocation → Known issuer s' stage t.allocation)
    (tickets : s'.Pending t.allocation → s.Pending t.allocation) : Placed issuer s' t := by
  refine ⟨fun looked => (placed.gate looked).trans_le gates, fun looked => ?_, fun anchored => ?_, placed.names,
    fun stage told => known stage (placed.knows stage told), fun acknowledges pending => ?_⟩
  · rcases placed.found looked with ⟨row, found, gate⟩ | ⟨absent, complete⟩
    · exact .inl ⟨row, by rw [records]; exact found, gate⟩
    · exact .inr ⟨by rw [records]; exact absent, known _ complete⟩
  · obtain ⟨row, found, gate, expects⟩ := placed.expects anchored
    exact ⟨row, by rw [records]; exact found, gate, expects⟩
  · exact placed.tickets acknowledges (tickets pending)

/-- A change of nothing that the invariant looks at but tickets, of which fewer are pending. -/
theorem Inv.congr {s' : Inner} (inv : Inv config issuer s) (up : s'.up = s.up) (journal : s'.journal = s.journal)
    (file : s'.file = s.file) (authority : s'.authority = s.authority) (threads : s'.threads = s.threads)
    (gates : s.nextGate ≤ s'.nextGate)
    (tickets : ∀ u ∈ s.threads, u.point.acknowledges = true → s'.Pending u.allocation → s.Pending u.allocation) :
    Inv config issuer s' := by
  refine ⟨?_, ?_, ?_, ?_, ?_, ?_⟩
  · rw [journal]
    exact inv.journal.mono gates
  · rw [file]
    exact inv.file.imp fun _ sound => sound.mono gates
  · rw [up, threads]
    exact inv.down
  · rw [authority]
    exact inv.authority
  · rw [threads]
    intro u member
    obtain ⟨gate, found, expects, names, knows, clear⟩ := inv.threads u member
    refine ⟨fun looked => (gate looked).trans_le gates, fun looked => ?_, ?_, names,
      fun stage told => (knows stage told).congr authority,
      fun acknowledges pending => clear acknowledges (tickets u member acknowledges pending)⟩
    · rw [Gone, journal]
      exact (found looked).imp_right fun gone => ⟨gone.1, gone.2.congr authority⟩
    · rw [journal]
      exact expects
  · rw [threads]
    exact inv.apart

theorem Inv.tell (inv : Inv config issuer s) (fact : Fact) : Inv config issuer (s.tell fact) :=
  inv.congr rfl rfl rfl rfl rfl le_rfl fun _ _ _ => id

/-! ### Taking a thread off and putting it back -/

theorem Inv.off (inv : Inv config issuer s) {index : ℕ} (at_ : s.threads[index]? = some t) :
    Off config issuer { s with threads := s.threads.eraseIdx index } t := by
  have perm := take_off at_
  have apart := (perm.pairwise_iff fun apart => Apart.symm apart).mp inv.apart
  obtain ⟨others, rest⟩ := List.pairwise_cons.mp apart
  have placed : ∀ u ∈ s.threads, Placed issuer { s with threads := s.threads.eraseIdx index } u :=
    fun u member => (inv.threads u member).congr rfl le_rfl (fun _ known => known.congr rfl) id
  refine ⟨⟨inv.journal, inv.file, fun down => ?_, inv.authority, fun u member => ?_, rest⟩, ?_, others⟩
  · have none_ := inv.down down
    show s.threads.eraseIdx index = []
    rw [none_]
    rfl
  · exact placed u (perm.mem_iff.mpr (List.mem_cons_of_mem t member))
  · exact placed t (perm.mem_iff.mpr List.mem_cons_self)

theorem Inv.resume (inv : Inv config issuer s) (up : s.up = true) {point : Point}
    (placed : Placed issuer s { t with point }) (apart : ∀ u ∈ s.threads, Apart { t with point } u) :
    Inv config issuer (s.resume t point) := by
  refine ⟨inv.journal, inv.file, fun down => ?_, inv.authority, fun u member => ?_, ?_⟩
  · cases up.symm.trans down
  · have kept : ∀ v, Placed issuer s v → Placed issuer (s.resume t point) v := fun v held =>
      held.congr rfl le_rfl (fun _ known => known.congr rfl) id
    rcases List.mem_cons.mp member with rfl | member
    · exact kept _ placed
    · exact kept u (inv.threads u member)
  · exact List.pairwise_cons.mpr ⟨apart, inv.apart⟩

/-! ### Saving the journal -/

/-- The state after a save, however it ended. -/
def saved (s : Inner) (journal : Journal) (write : Write) : Inner :=
  { s with journal, file := s.file.write journal write, poisoned := decide (write ≠ .done) }

theorem commit_keeps {P : Inner → Prop} {journal : Journal} {write : Write} {next : Inner → Inner}
    (failed : P (s.saved journal write)) (done : P (next (s.saved journal .done))) :
    P (s.commit journal write next) := by
  unfold commit
  dsimp only
  split
  next ends =>
    subst ends
    exact done
  · exact failed

section
variable {journal : Journal} {write : Write} {id : AllocationId} {after : Row}

theorem Known.saved {stage : Stage} {allocation : AllocationId} (known : Known issuer s stage allocation) :
    Known issuer (s.saved journal write) stage allocation :=
  known.congr rfl

/-- Another thread's row changes under a gate that this thread does not hold. -/
theorem Placed.replace (placed : Placed issuer s u) (found : s.journal.records.lookup id = some row)
    (gate : after.gate = row.gate) (alone : ¬u.holds row.gate)
    (records : journal.records = s.journal.records.insert id after) : Placed issuer (s.saved journal write) u := by
  have seen : (s.saved journal write).journal.records = s.journal.records.insert id after := records
  refine ⟨placed.gate, fun looked => ?_, fun anchored => ?_, placed.names,
    fun stage told => (placed.knows stage told).saved, placed.tickets⟩
  · rw [seen]
    by_cases own : u.allocation = id
    · subst own
      refine .inl ⟨after, AList.lookup_insert _, ?_⟩
      rcases placed.found looked with ⟨held, present, same⟩ | gone
      · cases found.symm.trans present
        rw [gate, same]
      · cases found.symm.trans gone.1
    · rw [Gone, seen, AList.lookup_insert_ne own]
      exact (placed.found looked).imp_right fun gone => ⟨gone.1, gone.2.saved⟩
  · obtain ⟨held, present, same, expects⟩ := placed.expects anchored
    by_cases own : u.allocation = id
    · subst own
      cases found.symm.trans present
      rcases Point.anchored_gated anchored with gated | reading
      · exact absurd ⟨gated, same.symm⟩ alone
      · refine ⟨after, by rw [seen, AList.lookup_insert], gate.trans same, ?_⟩
        rw [reading]
        trivial
    · exact ⟨held, by rw [seen, AList.lookup_insert_ne own]; exact present, same, expects⟩

/-- A row is inserted for an allocation that is not gone: nobody has looked it up. -/
theorem Placed.insert (placed : Placed issuer s u) (absent : s.journal.records.lookup id = none)
    (active : ¬Known issuer s .complete id) (records : journal.records = s.journal.records.insert id after) :
    Placed issuer (s.saved journal write) u := by
  have seen : (s.saved journal write).journal.records = s.journal.records.insert id after := records
  have other : u.point.looked = true → u.allocation ≠ id := by
    rintro looked rfl
    rcases placed.found looked with ⟨held, present, _⟩ | gone
    · cases absent.symm.trans present
    · exact active gone.2
  refine ⟨placed.gate, fun looked => ?_, fun anchored => ?_, placed.names,
    fun stage told => (placed.knows stage told).saved, placed.tickets⟩
  · rw [Gone, seen, AList.lookup_insert_ne (other looked)]
    exact (placed.found looked).imp_right fun gone => ⟨gone.1, gone.2.saved⟩
  · rw [seen, AList.lookup_insert_ne (other (Point.anchored_looked anchored))]
    exact placed.expects anchored

/-- A completed row is erased while its gate and its readers are held. -/
theorem Placed.erase (placed : Placed issuer s u) (complete : Known issuer s .complete id)
    (found : s.journal.records.lookup id = some row) (alone : ¬u.holds row.gate) (unread : ¬u.pins row.gate)
    (records : journal.records = s.journal.records.erase id) : Placed issuer (s.saved journal write) u := by
  have seen : (s.saved journal write).journal.records = s.journal.records.erase id := records
  refine ⟨placed.gate, fun looked => ?_, fun anchored => ?_, placed.names,
    fun stage told => (placed.knows stage told).saved, placed.tickets⟩
  · by_cases own : u.allocation = id
    · subst own
      exact .inr ⟨by rw [seen, AList.lookup_erase], complete.saved⟩
    · rw [Gone, seen, AList.lookup_erase_ne own]
      exact (placed.found looked).imp_right fun gone => ⟨gone.1, gone.2.saved⟩
  · obtain ⟨held, present, same, expects⟩ := placed.expects anchored
    by_cases own : u.allocation = id
    · subst own
      cases found.symm.trans present
      rcases Point.anchored_gated anchored with gated | reading
      · exact absurd ⟨gated, same.symm⟩ alone
      · exact absurd ⟨reading, same.symm⟩ unread
    · exact ⟨held, by rw [seen, AList.lookup_erase_ne own]; exact present, same, expects⟩

theorem Inv.saved (inv : Inv config issuer s) (sound : Sound config.capacity s.nextGate journal.records)
    (others : ∀ u ∈ s.threads, Placed issuer (s.saved journal write) u) :
    Inv config issuer (s.saved journal write) :=
  ⟨sound, inv.file.write sound write, inv.down, inv.authority, others, inv.apart⟩

/-- The thread that holds the gate changes its row. -/
theorem Holding.replace (holding : Holding config issuer s t row) (gated : t.point.gated = true)
    (gate : after.gate = row.gate) (records : journal.records = s.journal.records.insert t.allocation after)
    (sound : Sound config.capacity s.nextGate journal.records) :
    Holding config issuer (s.saved journal write) t after := by
  refine ⟨holding.inv.saved sound fun u member => ?_, ?_, gate.trans holding.gate, holding.apart⟩
  · refine (holding.inv.threads u member).replace holding.found gate ?_ records
    exact (holding.apart u member).gate _ ⟨gated, holding.gate.symm⟩
  · show journal.records.lookup t.allocation = some after
    rw [records, AList.lookup_insert]

end

/-! ### The row in hand -/

theorem Off.holding (off : Off config issuer s t) (looked : t.point.looked = true)
    (found : s.journal.records.lookup t.allocation = some row) : Holding config issuer s t row := by
  refine ⟨off.inv, found, ?_, off.apart⟩
  rcases off.placed.found looked with ⟨held, present, gate⟩ | gone
  · cases found.symm.trans present
    exact gate
  · cases found.symm.trans gone.1

theorem Off.withRow (off : Off config issuer s t) (looked : t.point.looked = true) {next : Row → Inner}
    (goes : ∀ row, Holding config issuer s t row → Inv config issuer (next row)) :
    Inv config issuer (s.withRow t.allocation next) := by
  unfold Inner.withRow
  split
  · exact off.inv
  · split
    · exact off.inv
    next row found => exact goes row (off.holding looked found)

/-- An edit under the gate that admission, release and retirement can follow. -/
theorem Off.edit (off : Off config issuer s t) (gated : t.point.gated = true) (looked : t.point.looked = true)
    {change : Row → Except Status Row} {write : Write} {next : Row → Inner → Inner}
    (follows : ∀ before after, Holding config issuer s t before → change before = .ok after → before.Follows after)
    (goes : ∀ before after s', Holding config issuer s t before → change before = .ok after → s'.up = s.up →
      s'.authority = s.authority → Holding config issuer s' t after → Inv config issuer (next after s')) :
    Inv config issuer (s.edit t.allocation change write next) := by
  unfold Inner.edit
  split
  · exact off.inv
  split
  · exact off.inv
  next after journal changed =>
    obtain ⟨before, found, changed⟩ := bind_ok.mp changed
    obtain ⟨made, done, changed⟩ := bind_ok.mp changed
    cases pure_ok.mp changed
    have holding := off.holding looked (okOr_ok.mp found)
    have same := follows before after holding done
    have sound := off.inv.journal.replace holding.found same
    have held := fun write => @Holding.replace config issuer s t before
      { s.journal with records := s.journal.records.insert t.allocation after } write after holding gated same.gate rfl
      sound
    exact commit_keeps (held write).inv (goes before after _ holding done rfl rfl (held .done))

/-- The thread goes on with its row in hand. -/
theorem Holding.resume (holding : Holding config issuer s t row) (up : s.up = true) {point : Point}
    (below : point.Below t.point) (expects : point.Expects row)
    (names : ∀ allocation ∈ point.names, allocation = t.allocation)
    (knows : ∀ stage ∈ point.knows, Known issuer s stage t.allocation)
    (tickets : point.acknowledges = true → ¬s.Pending t.allocation) : Inv config issuer (s.resume t point) := by
  refine holding.inv.resume up ⟨fun _ => ?_, fun _ => .inl ⟨row, holding.found, holding.gate⟩,
    fun _ => ⟨row, holding.found, holding.gate, expects⟩, names, knows, tickets⟩ fun u member => ?_
  · rw [← holding.gate]
    exact holding.inv.journal.below _ row holding.found
  · exact (holding.apart u member).keep below

/-- The thread goes on without looking at its row. -/
theorem Off.resume (off : Off config issuer s t) (up : s.up = true) {point : Point} (below : point.Below t.point)
    (anchored : point.anchored = false) (names : ∀ allocation ∈ point.names, allocation = t.allocation)
    (knows : ∀ stage ∈ point.knows, Known issuer s stage t.allocation)
    (acknowledges : point.acknowledges = false) : Inv config issuer (s.resume t point) := by
  refine off.inv.resume up ⟨fun told => off.placed.gate (below.looked told),
    fun told => off.placed.found (below.looked told), fun told => ?_, names, knows, fun told => ?_⟩
    fun u member => (off.apart u member).keep below
  · cases anchored.symm.trans told
  · cases acknowledges.symm.trans told

theorem Off.rest (off : Off config issuer s t) (up : s.up = true) {point : Point} (gated : t.point.gated = true)
    (quiet : point.Quiet) : Inv config issuer (s.resume t point) := by
  refine off.resume up (Point.below_gated gated quiet.drained quiet.reads) quiet.anchored ?_ ?_ quiet.acknowledges
  · rw [quiet.names]
    intro allocation told
    cases told
  · rw [quiet.knows]
    intro stage told
    cases told

theorem Holding.rest (holding : Holding config issuer s t row) (up : s.up = true) {point : Point}
    (gated : t.point.gated = true) (quiet : point.Quiet) : Inv config issuer (s.resume t point) := by
  have below : t.gate < s.nextGate := by
    rw [← holding.gate]
    exact holding.inv.journal.below _ row holding.found
  refine holding.inv.resume up ⟨fun _ => below, fun _ => .inl ⟨row, holding.found, holding.gate⟩, fun told => ?_, ?_,
    ?_, fun told => ?_⟩ fun u member => (holding.apart u member).keep (Point.below_gated gated quiet.drained quiet.reads)
  · cases quiet.anchored.symm.trans told
  · rw [show ({ t with point } : Thread).point.names = none from quiet.names]
    intro allocation told
    cases told
  · rw [show ({ t with point } : Thread).point.knows = none from quiet.knows]
    intro stage told
    cases told
  · cases quiet.acknowledges.symm.trans told

end
end HudsonSandbox.Inner
