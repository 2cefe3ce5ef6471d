import HudsonSandbox.Inner.Placed

/-!
# Creates, stops and releases keep the invariant

One lemma for each program point of the requests that change an allocation's lifecycle.
-/

namespace HudsonSandbox.Inner
open Checked Supervisor AllocationAuthority Stored Host Ledger
open LiveOutput hiding Status

section
variable {config : Config} {texts : Texts} {issuer : Issuer} {s : Inner} {t : Thread} {turn : Turn}

/-! ### What an edit makes of a row -/

theorem Row.fence_ok {o : Ownership} {now : ℤ} {row after : Row} (h : row.fence o now = .ok after) :
    sameAllocation row.record.owner o ∧ row.record.retirement = none ∧
      ∃ revisions, after = { row with record := { row.record with revisions } } := by
  obtain ⟨_, _, h⟩ := bind_ok.mp h
  obtain ⟨record, made, h⟩ := bind_ok.mp h
  obtain ⟨same, made⟩ := seq_ok.mp made
  obtain ⟨free, made⟩ := seq_ok.mp made
  obtain ⟨_, made⟩ := seq_ok.mp made
  obtain ⟨_, made⟩ := seq_ok.mp made
  obtain rfl := pure_ok.mp made
  exact ⟨ensure_ok.mp same, ensure_ok.mp free, _, (pure_ok.mp h).symm⟩

theorem Row.lease_ok {o : Ownership} {lease : LeaseOwnership} {expires : Option ℤ} {now : ℤ} {row after : Row}
    (h : row.lease o lease expires now = .ok after) :
    ∃ leaseRevision leaseRequest,
      after = { row with record := { row.record with leaseRevision, leaseRequest } } := by
  obtain ⟨_, _, h⟩ := bind_ok.mp h
  obtain ⟨record, made, h⟩ := bind_ok.mp h
  obtain ⟨_, made⟩ := seq_ok.mp made
  obtain rfl := pure_ok.mp h
  cases expires with
  | none =>
    obtain rfl := pure_ok.mp made
    exact ⟨_, row.record.leaseRequest, rfl⟩
  | some until_ =>
    obtain ⟨_, made⟩ := seq_ok.mp made
    obtain rfl := pure_ok.mp made
    exact ⟨_, _, rfl⟩

theorem Row.fence_follows {o : Ownership} {now : ℤ} {row after : Row} (h : row.fence o now = .ok after) :
    row.Follows after := by
  obtain ⟨_, _, revisions, rfl⟩ := Row.fence_ok h
  exact ⟨rfl, rfl, rfl, rfl, rfl, .inl, id, id, id, .inl, id⟩

theorem Row.lease_follows {o : Ownership} {lease : LeaseOwnership} {expires : Option ℤ} {now : ℤ}
    {row after : Row} (h : row.lease o lease expires now = .ok after) : row.Follows after := by
  obtain ⟨_, _, rfl⟩ := Row.lease_ok h
  exact ⟨rfl, rfl, rfl, rfl, rfl, .inl, id, id, id, .inl, id⟩

theorem Row.touch_follows {record : Option Record} {row after : Row} (h : row.touch record = .ok after) :
    row.Follows after := by
  obtain ⟨_, h⟩ := seq_ok.mp h
  obtain ⟨record, _, h⟩ := bind_ok.mp h
  obtain ⟨unrelated, h⟩ := seq_ok.mp h
  obtain ⟨owner, retirement, create, manifest, dispatched, stopped, released⟩ := ensure_ok.mp unrelated
  obtain rfl := pure_ok.mp h
  refine ⟨owner, rfl, rfl, create, manifest, fun held => .inl ?_, fun held => ?_, fun held => ?_, fun held => ?_,
    fun held => .inl ?_, fun held => ?_⟩
  · rw [← dispatched]
    exact held
  · rw [dispatched]
    exact held
  · rw [stopped]
    exact held
  · rw [released]
    exact held
  · rw [← released]
    exact held
  · rw [retirement]
    exact held

theorem Row.release_follows (row : Row) : row.Follows row.release :=
  ⟨rfl, rfl, rfl, rfl, rfl, .inl, id, fun _ => rfl, fun _ => rfl, fun _ => .inr rfl, id⟩

theorem Row.dispatch_follows {row : Row} (created : row.Created) : row.Follows row.dispatch :=
  ⟨rfl, rfl, rfl, rfl, rfl, fun _ => .inr created, fun _ => rfl, id, id, .inl, id⟩

/-! ### Before the gate -/

theorem registered_active {o : Ownership} {granted : Bool} (inv : Inv config issuer s)
    (h : registered config texts s o granted = .ok ()) : ¬Known issuer s .complete o.allocationId := by
  rintro ⟨file, has, past⟩
  unfold registered at h
  rw [has] at h
  obtain ⟨bounds, _, h⟩ := bind_ok.mp h
  obtain ⟨_, h⟩ := seq_ok.mp h
  obtain ⟨permit, active, _⟩ := bind_ok.mp h
  have issued := (inv.authority file (Option.mem_def.mpr has)).1
  exact authorizeRegisteredAllocation_active issued (mapError_ok.mp active) (past.1.mono (by decide))

/-- The row is there, or is inserted with the next gate: the request waits for its gate. -/
theorem waiting_placed {task : Task} {row : Row} (inv : Inv config issuer s)
    (found : s.journal.records.lookup t.allocation = some row)
    (names : ∀ allocation ∈ task.names, allocation = t.allocation) :
    Placed issuer s { t with gate := row.gate, point := .waiting task } := by
  refine ⟨fun _ => inv.journal.below _ row found, fun _ => .inl ⟨row, found, rfl⟩, fun told => ?_, names,
    fun stage told => ?_, fun told => ?_⟩
  · cases told
  · cases told
  · cases told

theorem wait_inv {task : Task} {row : Row} (inv : Inv config issuer s) (up : s.up = true)
    (found : s.journal.records.lookup t.allocation = some row)
    (names : ∀ allocation ∈ task.names, allocation = t.allocation) :
    Inv config issuer (s.resume { t with gate := row.gate } (.waiting task)) :=
  inv.resume up (waiting_placed inv found names) fun _ _ => Apart.of_free rfl (by intro same; cases same)

theorem lookGate_inv {task : Task} {o : Ownership} (off : Off config issuer s t) (up : s.up = true)
    (point : t.point = .arriving task) (named : task.names = some o.allocationId) :
    Inv config issuer (s.lookGate config texts t o task turn) := by
  have names : ∀ allocation ∈ task.names, allocation = t.allocation := by
    have told := off.placed.names
    rw [point] at told
    exact told
  have same : o.allocationId = t.allocation := names _ (Option.mem_def.mpr named)
  unfold Inner.lookGate
  split
  · exact off.inv
  split
  next row found =>
    split
    · exact off.inv
    · rw [same] at found
      exact wait_inv off.inv up found names
  next absent =>
    split
    · exact off.inv
    next passed =>
      obtain ⟨_, active⟩ := seq_ok.mp passed
      have active := registered_active off.inv active
      dsimp only
      have inv : Inv config issuer { s with nextGate := s.nextGate + 1 } :=
        off.inv.congr rfl rfl rfl rfl rfl (Nat.le_succ _) fun _ _ _ => id
      have unused : (Row.new o s.nextGate).Unused := ⟨rfl, rfl, rfl, rfl, rfl⟩
      have sound := off.inv.journal.insert absent unused rfl rfl
      have kept : ∀ write, Inv config issuer ({ s with nextGate := s.nextGate + 1 }.saved
          { s.journal with records := s.journal.records.insert o.allocationId (Row.new o s.nextGate) } write) :=
        fun write => inv.saved sound fun u member => (inv.threads u member).insert absent active rfl
      refine commit_keeps (kept turn.write) (wait_inv (kept .done) up ?_ names)
      rw [← same]
      exact AList.lookup_insert _

theorem arriving_inv {task : Task} (off : Off config issuer s t) (up : s.up = true)
    (point : t.point = .arriving task) : Inv config issuer (s.arriving config texts t task turn) := by
  have names : ∀ allocation ∈ task.names, allocation = t.allocation := by
    have told := off.placed.names
    rw [point] at told
    exact told
  have found : Inv config issuer
      (s.withRow t.allocation fun row => s.resume { t with gate := row.gate } (.waiting task)) := by
    unfold Inner.withRow
    split
    · exact off.inv
    split
    · exact off.inv
    next row present => exact wait_inv off.inv up present names
  cases task with
  | create o request => exact lookGate_inv off up point rfl
  | inspect o stop => exact lookGate_inv off up point rfl
  | lease o lease expires => exact found
  | previous o =>
    unfold Inner.arriving Inner.withRow
    split
    · exact off.inv
    split
    · exact off.inv
    next row present =>
      dsimp only
      split
      · exact wait_inv off.inv up present names
      · exact off.inv
  | reconcile record => exact found
  | other o inserts =>
    cases inserts with
    | true => exact lookGate_inv off up point rfl
    | false => exact found

/-- A waiting request takes its gate once nobody holds it. -/
theorem waiting_inv {task : Task} (off : Off config issuer s t) (up : s.up = true) (point : t.point = .waiting task) :
    Inv config issuer (s.resume t (if GateFree s.threads t.gate then .held task else .waiting task)) := by
  have placed := off.placed
  have names : ∀ allocation ∈ task.names, allocation = t.allocation := by
    have told := placed.names
    rw [point] at told
    exact told
  have looked : t.point.looked = true := by
    rw [point]
    rfl
  split
  next free =>
    refine off.inv.resume up ⟨fun _ => placed.gate looked, fun _ => placed.found looked, fun told => ?_, names,
      fun stage told => ?_, fun told => ?_⟩ fun u member => ⟨fun g held => ?_, fun g held => ?_, fun g _ pinned => ?_⟩
    · cases told
    · cases told
    · cases told
    · rw [← held.2]
      exact free u member
    · cases held.1
    · cases pinned.1
  · have below : (Point.waiting task).Below t.point := by
      rw [point]
      exact ⟨id, id, id, id⟩
    refine off.resume up below rfl names (fun stage told => ?_) rfl
    cases told

/-! ### Under the gate -/

theorem observing_quiet (record : Record) : (Point.observing record).Quiet := ⟨rfl, rfl, rfl, rfl, rfl, rfl⟩
theorem stopping_quiet (record : Record) : (Point.stopping record).Quiet := ⟨rfl, rfl, rfl, rfl, rfl, rfl⟩

/-- A create finds its row fresh: nothing has stopped it, and no manifest was given to it. -/
theorem fresh_expects {row : Row} {o : Ownership} {request : CreateRequest} (sound : row.Sound)
    (free : row.record.retirement = none) (unstopped : row.record.stopped = false)
    (uncreated : row.record.create = none) (same : sameAllocation row.record.owner o) :
    (Point.admitting o request).Expects row := by
  refine ⟨⟨free, unstopped, ?_⟩, uncreated, same⟩
  by_contra released
  have stopped := sound.released (Bool.not_eq_false _ ▸ released)
  cases unstopped.symm.trans stopped

theorem held_inv {task : Task} (off : Off config issuer s t) (up : s.up = true) (point : t.point = .held task) :
    Inv config issuer (s.held t task turn) := by
  have names : ∀ allocation ∈ task.names, allocation = t.allocation := by
    have told := off.placed.names
    rw [point] at told
    exact told
  have gated : t.point.gated = true := by
    rw [point]
    rfl
  have looked := Point.gated_looked gated
  cases task with
  | create o request =>
    refine off.edit gated looked (fun before after _ => Row.fence_follows) ?_
    intro before after s' _ changed same _ holding
    have up' := same.trans up
    obtain ⟨owner, free, revisions, rfl⟩ := Row.fence_ok changed
    dsimp only
    split
    · split
      · exact holding.rest up' gated (observing_quiet _)
      · exact holding.inv
    next uncreated =>
      split
      · exact holding.inv
      next unstopped =>
        have sound := holding.inv.journal.rows _ _ holding.found
        refine holding.resume up' (Point.below_gated gated rfl rfl)
          (fresh_expects sound free (Bool.not_eq_true _ ▸ unstopped) uncreated owner) names ?_ ?_
        · intro stage told
          cases told
        · intro told
          cases told
  | inspect o stop =>
    refine off.edit gated looked (fun before after _ => Row.fence_follows) ?_
    intro before after s' _ _ same _ holding
    split
    · exact holding.rest (same.trans up) gated (stopping_quiet _)
    · exact holding.rest (same.trans up) gated (observing_quiet _)
  | lease o lease expires =>
    refine off.edit gated looked (fun before after _ => Row.lease_follows) ?_
    intro before after s' _ _ same _ holding
    split
    · exact holding.rest (same.trans up) gated (observing_quiet _)
    · exact holding.inv
  | previous o =>
    refine off.withRow looked fun row holding => ?_
    split
    · exact holding.rest up gated (observing_quiet _)
    · exact holding.inv
  | reconcile record => exact off.rest up gated (observing_quiet _)
  | other o inserts =>
    refine off.edit gated looked (fun before after _ => Row.touch_follows) ?_
    intro before after s' _ _ same _ holding
    exact holding.rest (same.trans up) gated ⟨rfl, rfl, rfl, rfl, rfl, rfl⟩

/-! ### Creating -/

theorem Off.tell (off : Off config issuer s t) (fact : Fact) : Off config issuer (s.tell fact) t :=
  ⟨off.inv.tell fact, off.placed.congr rfl le_rfl (fun _ known => known.congr rfl) id, off.apart⟩

theorem manifestStart_ok {request : CreateRequest} {refusal : Option Status} {start : Resources}
    (h : manifestStart request refusal = .ok start) : Supported start := by
  obtain ⟨found, _, h⟩ := bind_ok.mp h
  obtain ⟨supported, h⟩ := seq_ok.mp h
  cases refusal with
  | some status => cases h
  | none =>
    cases pure_ok.mp h
    exact ensure_ok.mp supported

theorem admitting_inv {o : Ownership} {request : CreateRequest} (off : Off config issuer s t) (up : s.up = true)
    (point : t.point = .admitting o request) : Inv config issuer (s.admitting config t o request turn) := by
  have placed := off.placed
  have gated : t.point.gated = true := by
    rw [point]
    rfl
  have same : o.allocationId = t.allocation := by
    refine placed.names _ ?_
    rw [point]
    rfl
  obtain ⟨row, found, _, expects⟩ := placed.expects (by rw [point]; rfl)
  rw [point] at expects
  obtain ⟨live, uncreated, owner⟩ := expects
  unfold Inner.admitting
  split
  · exact off.inv
  split
  · exact off.inv
  next after journal passed =>
    obtain ⟨start, given, passed⟩ := bind_ok.mp passed
    obtain ⟨own, entered, rfl, rfl⟩ := admitted_ok passed
    have holding := (off.tell (.admitted t.allocation s.journal)).holding (Point.gated_looked gated) found
    have present := entered.found
    rw [same, found] at present
    obtain rfl := Option.some.inj present
    have rows := off.inv.journal.rows _ row found
    have sound := off.inv.journal.entered (manifestStart_ok given) entered owner
    rw [same] at sound ⊢
    have held := fun write => @Holding.replace config issuer (s.tell (.admitted t.allocation s.journal)) t row
      { s.journal with records := s.journal.records.insert t.allocation (row.entered o request start) } write
      (row.entered o request start) holding gated rfl rfl sound
    refine commit_keeps (held turn.write).inv ((held .done).resume up (Point.below_gated gated rfl rfl) ?_ ?_ ?_ ?_)
    · refine ⟨⟨live.retirement, live.stopped, live.released⟩, rfl, ?_⟩
      by_contra dispatched
      have created := rows.dispatched (Bool.not_eq_false _ ▸ dispatched)
      rw [Row.Created, ← rows.created, uncreated] at created
      cases created
    · intro allocation told
      cases told
    · intro stage told
      cases told
    · intro told
      cases told

theorem preparing_inv {record : Record} (off : Off config issuer s t) (up : s.up = true)
    (point : t.point = .preparing record) : Inv config issuer (s.preparing t record turn) := by
  have gated : t.point.gated = true := by
    rw [point]
    rfl
  obtain ⟨row, found, _, expects⟩ := off.placed.expects (by rw [point]; rfl)
  rw [point] at expects
  unfold Inner.preparing
  split
  · refine (off.holding (Point.gated_looked gated) found).resume up (Point.below_gated gated rfl rfl) expects ?_ ?_ ?_
    · intro allocation told
      cases told
    · intro stage told
      cases told
    · intro told
      cases told
  · exact off.rest up gated (stopping_quiet _)

theorem dispatching_inv {record : Record} (off : Off config issuer s t) (up : s.up = true)
    (point : t.point = .dispatching record) : Inv config issuer (s.dispatching t record turn) := by
  have gated : t.point.gated = true := by
    rw [point]
    rfl
  obtain ⟨row, found, _, expects⟩ := off.placed.expects (by rw [point]; rfl)
  rw [point] at expects
  obtain ⟨live, created, _⟩ := expects
  have own : ∀ before, Holding config issuer s t before → before = row := fun before holding =>
    Option.some.inj (holding.found.symm.trans found)
  refine off.edit gated (Point.gated_looked gated) ?_ ?_
  · intro before after holding changed
    obtain rfl := own before holding
    cases changed
    exact Row.dispatch_follows created
  · intro before after s' holding changed same _ next
    obtain rfl := own before holding
    cases changed
    refine next.resume (same.trans up) (Point.below_gated gated rfl rfl) ?_ ?_ ?_ ?_
    · exact ⟨⟨live.retirement, live.stopped, live.released⟩, rfl⟩
    · intro allocation told
      cases told
    · intro stage told
      cases told
    · intro told
      cases told

theorem spawning_inv {record : Record} (off : Off config issuer s t) (up : s.up = true)
    (point : t.point = .spawning record) : Inv config issuer (s.spawning t record turn) := by
  have gated : t.point.gated = true := by
    rw [point]
    rfl
  unfold Inner.spawning
  split
  · exact (off.tell _).rest up gated ⟨rfl, rfl, rfl, rfl, rfl, rfl⟩
  · exact off.rest up gated (stopping_quiet _)

/-! ### Stopping, releasing and other requests -/

theorem stopping_inv {record : Record} (off : Off config issuer s t) (up : s.up = true)
    (point : t.point = .stopping record) : Inv config issuer (s.stopping t record turn) := by
  have gated : t.point.gated = true := by
    rw [point]
    rfl
  refine off.edit gated (Point.gated_looked gated) ?_ ?_
  · intro before after _ changed
    cases changed
    exact before.stop_follows
  · intro before after s' _ _ same _ holding
    exact holding.rest (same.trans up) gated (observing_quiet _)

theorem observing_inv {record : Record} (off : Off config issuer s t) (up : s.up = true)
    (point : t.point = .observing record) : Inv config issuer (s.observing t record turn) := by
  have gated : t.point.gated = true := by
    rw [point]
    rfl
  unfold Inner.observing
  split
  · exact off.inv
  split
  · exact off.inv
  split
  · exact off.rest up gated ⟨rfl, rfl, rfl, rfl, rfl, rfl⟩
  · exact off.inv

theorem releasing_inv (off : Off config issuer s t) (point : t.point = .releasing) :
    Inv config issuer (s.releasing t turn) := by
  have gated : t.point.gated = true := by
    rw [point]
    rfl
  refine off.withRow (Point.gated_looked gated) fun row _ => ?_
  split
  · exact off.inv
  · refine off.edit gated (Point.gated_looked gated) ?_ ?_
    · intro before after _ changed
      cases changed
      exact before.release_follows
    · intro before after s' _ _ _ _ holding
      exact holding.inv

theorem editing_inv (off : Off config issuer s t) (up : s.up = true) (point : t.point = .editing) :
    Inv config issuer (s.editing t turn) := by
  have gated : t.point.gated = true := by
    rw [point]
    rfl
  refine off.edit gated (Point.gated_looked gated) (fun before after _ => Row.touch_follows) ?_
  intro before after s' _ _ same _ holding
  exact holding.rest (same.trans up) gated ⟨rfl, rfl, rfl, rfl, rfl, rfl⟩

/-! ### Readers -/

theorem pin_inv {allocation : AllocationId} (inv : Inv config issuer s) (up : s.up = true) :
    Inv config issuer (s.pin allocation) := by
  unfold Inner.pin Inner.withRow
  split
  · exact inv
  split
  · exact inv
  next row found =>
    dsimp only
    split
    next free =>
      refine inv.resume up ⟨fun _ => inv.journal.below _ row found, fun _ => .inl ⟨row, found, rfl⟩,
        fun _ => ⟨row, found, rfl, trivial⟩, ?_, ?_, ?_⟩ fun u member => ⟨fun g held => ?_, fun g held => ?_, fun g held pinned => ?_⟩
      · intro allocation told
        cases told
      · intro stage told
        cases told
      · intro told
        cases told
      · cases held.1
      · cases held.1
      · refine free.2.2.2 u member ?_
        have same : row.gate = g := pinned.2
        rw [same]
        exact held
    · exact inv

theorem pending_prune {now : ℤ} {allocation : AllocationId} (pending : (s.prune now).Pending allocation) :
    s.Pending allocation := by
  obtain ⟨ticket, member, own⟩ := pending
  exact ⟨ticket, (List.mem_filter.mp member).1, own⟩

theorem pending_reserve {allocation other : AllocationId} {expires : ℤ}
    (pending : (s.reserveTicket allocation expires).Pending other) : other = allocation ∨ s.Pending other := by
  unfold reserveTicket at pending
  split at pending
  · exact .inr pending
  · obtain ⟨ticket, member, own, unreleased⟩ := pending
    rcases List.mem_cons.mp member with rfl | member
    · exact .inl own.symm
    · exact .inr ⟨ticket, member, own, unreleased⟩

theorem pending_release {index : ℕ} {allocation : AllocationId} (pending : (s.releaseTicket index).Pending allocation) :
    s.Pending allocation := by
  obtain ⟨ticket, member, own, unreleased⟩ := pending
  obtain ⟨place, low, rfl⟩ := List.mem_iff_getElem.mp member
  have kept : place < s.tickets.length := by
    have same : (s.releaseTicket index).tickets.length = s.tickets.length := List.length_modify ..
    omega
  refine ⟨s.tickets[place], List.getElem_mem kept, ?_⟩
  have changed : (s.releaseTicket index).tickets[place] =
      if index = place then { s.tickets[place] with released := true } else s.tickets[place] :=
    List.getElem_modify ..
  rw [changed] at own unreleased
  split at own
  next same =>
    rw [if_pos same] at unreleased
    cases unreleased
  next other =>
    rw [if_neg other] at unreleased
    exact ⟨own, unreleased⟩

theorem reserve_tickets (s : Inner) (allocation : AllocationId) (expires : ℤ) :
    ∃ tickets, s.reserveTicket allocation expires = { s with tickets } := by
  unfold reserveTicket
  split
  · exact ⟨s.tickets, rfl⟩
  · exact ⟨_, rfl⟩

theorem acknowledges_anchored {point : Point} (acknowledges : point.acknowledges = true) : point.anchored = true := by
  cases point <;> first | rfl | cases acknowledges

theorem acknowledges_drained {point : Point} (acknowledges : point.acknowledges = true) : point.drained = true := by
  cases point <;> first | rfl | cases acknowledges

theorem reading_inv (off : Off config issuer s t) (up : s.up = true) (point : t.point = .reading) :
    Inv config issuer (s.reading t turn) := by
  obtain ⟨row, found, gate, _⟩ := off.placed.expects (by rw [point]; rfl)
  have below : Point.reading.Below t.point := by
    rw [point]
    exact ⟨id, id, id, id⟩
  -- Only tickets change, and none of an allocation whose fence is being acknowledged comes up.
  have goes : ∀ tickets, (∀ u ∈ s.threads, u.point.acknowledges = true →
      Pending { s with tickets } u.allocation → s.Pending u.allocation) →
        Inv config issuer (resume { s with tickets } t .reading) := by
    intro tickets pending
    have inv : Inv config issuer { s with tickets } := off.inv.congr rfl rfl rfl rfl rfl le_rfl pending
    have holding : Holding config issuer { s with tickets } t row := ⟨inv, found, gate, off.apart⟩
    refine holding.resume up below trivial ?_ ?_ ?_
    · intro allocation told
      cases told
    · intro stage told
      cases told
    · intro told
      cases told
  unfold Inner.reading
  split
  next expires _ =>
    obtain ⟨tickets, changed⟩ := reserve_tickets (s.prune turn.now) t.allocation expires
    have pending : ∀ other, Pending { s with tickets } other → other = t.allocation ∨ s.Pending other := by
      intro other pending
      have again : ((s.prune turn.now).reserveTicket t.allocation expires).Pending other := by
        rw [changed]
        exact pending
      exact (pending_reserve again).imp_right pending_prune
    rw [changed]
    refine goes tickets fun u member acknowledges told => ?_
    refine (pending u.allocation told).resolve_left fun same => ?_
    obtain ⟨own, present, gated, _⟩ := (off.inv.threads u member).expects (acknowledges_anchored acknowledges)
    rw [same, found] at present
    obtain rfl := Option.some.inj present
    exact (off.apart u member).pinned u.gate ⟨acknowledges_drained acknowledges, rfl⟩ ⟨point, gate.symm.trans gated⟩
  · exact goes _ fun u _ _ => pending_release
  · exact off.inv

end
end HudsonSandbox.Inner
