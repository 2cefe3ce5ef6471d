import HudsonSandbox.Inner.Moves

/-!
# What each step of a host tells

Every step of a host either tells nothing, or one fact that was due, or takes one create to the
spawn of its guardian.
-/

namespace HudsonSandbox.Inner
open Checked Supervisor AllocationAuthority AllocationRetirement Stored Host Ledger
open LiveOutput hiding Status

/-- The row that an admission finds, and every other row of its sandbox. -/
structure Admissible (config : Config) (o : Ownership) (journal : Journal) : Prop where
  own : ∃ row, journal.records.lookup o.allocationId = some row ∧ row.Live ∧ row.record.create = none
  others : ∀ id row, journal.records.lookup id = some row → id ≠ o.allocationId →
    row.record.owner.sandboxId = o.sandboxId → row.record.owner.projectId = o.projectId ∧
      row.record.owner.generation < o.generation ∧ (row.Created → row.record.released = true) ∧
      row.record.stopped = true
  sums : ∃ sum start, Supported start ∧ Counted {} journal.records.entries sum ∧ Fits config.capacity sum start

/-- When a host may say so. -/
def Fact.Due (config : Config) (issuer : Issuer) (s : Inner) : Fact → Prop
  | .admitted allocation before => before = s.journal ∧ ∃ o, o.allocationId = allocation ∧ Admissible config o before
  | .spawned allocation => (∃ row, s.journal.records.lookup allocation = some row ∧ row.Live) ∧
      ∃ t ∈ s.threads, t.point.spawns = true ∧ t.allocation = allocation
  | .fenced request => Holds issuer s Row.Retiring request.intent.permit.allocation ∧
      Known issuer s .fenced request.intent.permit.allocation ∧ ¬s.Pending request.intent.permit.allocation ∧
      ∀ u ∈ s.threads, u.allocation = request.intent.permit.allocation → u.point ≠ .reading
  | .retired request => Holds issuer s Row.Retiring request.intent.permit.allocation ∧
      Known issuer s .fenced request.intent.permit.allocation
  | .removed allocation => Known issuer s .complete allocation ∧ Holds issuer s Row.Retiring allocation
  | .forgotten request state => s.journal.records.lookup request.claim.intent.permit.allocation = none ∧
      (state = .forgotten → Vacant issuer s request.claim.intent.permit.allocation)

inductive Steps (config : Config) (issuer : Issuer) (s s' : Inner) : Prop where
  | quiet (goes : Goes issuer s s')
  /-- The dispatch is durable, and its thread goes on to the spawn. -/
  | dispatched (t : Thread) (row : Row) (record : Record) (middle : Inner)
      (found : s.journal.records.lookup t.allocation = some row) (fresh : row.record.dispatched = false)
      (goes : Goes issuer s middle) (holds : Holds issuer middle Row.Dispatched t.allocation)
      (resumed : s' = middle.resume t (.spawning record))
  /-- A thread that told of its spawn was the last that could. -/
  | told (fact : Fact) (due : Fact.Due config issuer s fact) (goes : Goes issuer (s.tell fact) s')
      (spent : ∀ allocation, fact = .spawned allocation → ∀ u ∈ s'.threads, u.point.spawns = true →
        u.allocation ≠ allocation)

section
variable {config : Config} {texts : Texts} {issuer : Issuer} {s s' : Inner} {t : Thread} {turn : Turn}
  {request : AllocationRetirement.Request} {forget : ForgetRequest} {retire : Bool} {row : Row}

/-- What is due does not depend on the order of the threads. -/
theorem Fact.Due.listed {fact : Fact} {threads : List Thread} (members : ∀ u, u ∈ threads ↔ u ∈ s.threads)
    (due : fact.Due config issuer { s with threads }) : fact.Due config issuer s := by
  cases fact with
  | admitted allocation before => exact due
  | spawned allocation =>
    obtain ⟨live, u, member, last⟩ := due
    exact ⟨live, u, (members u).mp member, last⟩
  | fenced request =>
    obtain ⟨holds, known, clear, unread⟩ := due
    exact ⟨holds.imp rfl rfl fun known => known.congr rfl, known.congr rfl, clear,
      fun u member => unread u ((members u).mpr member)⟩
  | retired request => exact ⟨due.1.imp rfl rfl fun known => known.congr rfl, due.2.congr rfl⟩
  | removed allocation => exact ⟨due.1.congr rfl, due.2.imp rfl rfl fun known => known.congr rfl⟩
  | forgotten request state => exact ⟨due.1, fun same => (due.2 same).imp rfl rfl fun known => known.congr rfl⟩

theorem Steps.listed {threads : List Thread} (members : ∀ u, u ∈ threads ↔ u ∈ s.threads)
    (steps : Steps config issuer { s with threads } s') : Steps config issuer s s' := by
  have same : ∀ facts, Goes issuer { s with facts } { s with threads, facts } := fun facts =>
    .congr rfl rfl rfl rfl rfl rfl fun u member => (members u).mp member
  cases steps with
  | quiet goes => exact .quiet ((same s.facts).trans goes)
  | dispatched t row record middle found fresh goes holds resumed =>
    exact .dispatched t row record middle found fresh ((same s.facts).trans goes) holds resumed
  | told fact due goes spent => exact .told fact (due.listed members) ((same _).trans goes) spent

/-- A host with a thread back on its list. -/
def back (s : Inner) (t : Thread) : Inner := { s with threads := t :: s.threads }

theorem goes_back (s : Inner) (t : Thread) : Goes issuer (s.back t) s :=
  .congr rfl rfl rfl rfl rfl rfl fun _ member => List.mem_cons_of_mem t member

theorem Steps.calm (goes : Goes issuer s s') : Steps config issuer (s.back t) s' := .quiet ((goes_back s t).trans goes)

/-! ### Before the gate -/

theorem lookGate_goes {task : Task} {o : Ownership} (inv : Inv config issuer s) :
    Goes issuer s (s.lookGate config texts t o task turn) := by
  unfold Inner.lookGate
  split
  · exact .refl s
  split
  next row found =>
    split
    · exact .refl s
    · exact (Goes.refl s).resume rfl rfl
  next absent =>
    split
    · exact .refl s
    next passed =>
      obtain ⟨_, active⟩ := seq_ok.mp passed
      have active := registered_active inv active
      have moved : Goes issuer s { s with nextGate := s.nextGate + 1 } :=
        .congr rfl rfl rfl rfl rfl rfl fun _ member => member
      refine moved.trans (.commit (.insert absent (fun known => active (known.congr rfl)) rfl) ?_)
      exact (Goes.refl _).resume rfl rfl

theorem arriving_goes {task : Task} (inv : Inv config issuer s) :
    Goes issuer s (s.arriving config texts t task turn) := by
  have found : Goes issuer s
      (s.withRow t.allocation fun row => s.resume { t with gate := row.gate } (.waiting task)) :=
    .withRow fun _ _ => (Goes.refl s).resume rfl rfl
  cases task with
  | create o request => exact lookGate_goes inv
  | inspect o stop => exact lookGate_goes inv
  | lease o lease expires => exact found
  | previous o =>
    refine .withRow fun row _ => ?_
    split
    · exact (Goes.refl s).resume rfl rfl
    · exact .refl s
  | reconcile record => exact found
  | other o inserts =>
    cases inserts with
    | true => exact lookGate_goes inv
    | false => exact found

/-! ### Under the gate -/

theorem held_goes {task : Task} : Goes issuer s (s.held t task turn) := by
  cases task with
  | create o request =>
    refine .edit (fun before after _ => Row.fence_follows) fun after journal => ?_
    split
    · split
      · exact (Goes.refl _).resume rfl rfl
      · exact .refl _
    · split
      · exact .refl _
      · exact (Goes.refl _).resume rfl rfl
  | inspect o stop =>
    refine .edit (fun before after _ => Row.fence_follows) fun after journal => ?_
    split
    · exact (Goes.refl _).resume rfl rfl
    · exact (Goes.refl _).resume rfl rfl
  | lease o lease expires =>
    refine .edit (fun before after _ => Row.lease_follows) fun after journal => ?_
    split
    · exact (Goes.refl _).resume rfl rfl
    · exact .refl _
  | previous o =>
    refine .withRow fun row _ => ?_
    split
    · exact (Goes.refl _).resume rfl rfl
    · exact .refl _
  | reconcile record => exact (Goes.refl _).resume rfl rfl
  | other o inserts =>
    exact .edit (fun before after _ => Row.touch_follows) fun after journal => (Goes.refl _).resume rfl rfl

theorem sound_admissible {capacity : Capacity} {gates : ℕ} {records : Records} {o : Ownership} {start : Resources}
    (sound : Sound capacity gates records) (surveyed : ∃ sum, survey o {} records.entries = .ok sum ∧ Fits capacity sum start) :
    (∀ id row, records.lookup id = some row → id ≠ o.allocationId → row.record.owner.sandboxId = o.sandboxId →
      row.record.owner.projectId = o.projectId ∧ row.record.owner.generation < o.generation ∧
        (row.Created → row.record.released = true) ∧ row.record.stopped = true) ∧
      ∃ sum, Counted {} records.entries sum ∧ Fits capacity sum start := by
  obtain ⟨sum, counted, fits⟩ := surveyed
  obtain ⟨counted, free⟩ := sound.survey counted
  exact ⟨fun id row found different same => not_blocks (free id row found different) same, sum, counted, fits⟩

theorem admitting_steps {o : Ownership} {request : CreateRequest} (off : Off config issuer s t)
    (point : t.point = .admitting o request) :
    Steps config issuer (s.back t) (s.admitting config t o request turn) := by
  have same : o.allocationId = t.allocation := by
    refine off.placed.names _ ?_
    rw [point]
    rfl
  obtain ⟨row, found, _, expects⟩ := off.placed.expects (by rw [point]; rfl)
  rw [point] at expects
  obtain ⟨live, uncreated, owner⟩ := expects
  unfold Inner.admitting
  split
  · exact .calm (.refl s)
  split
  · exact .calm (.refl s)
  next after journal passed =>
    obtain ⟨start, given, passed⟩ := bind_ok.mp passed
    obtain ⟨own, entered, rfl, rfl⟩ := admitted_ok passed
    obtain ⟨others, sum, counted, fits⟩ := sound_admissible off.inv.journal entered.surveyed
    rw [same]
    refine .told (.admitted t.allocation s.journal) ⟨rfl, o, same, ⟨row, ?_, live, uncreated⟩, others, sum, start,
      manifestStart_ok given, counted, fits⟩ ?_ fun allocation told => ?_
    · rw [same]
      exact found
    · refine (goes_back (s.tell (.admitted t.allocation s.journal)) t).trans ?_
      have present := entered.found
      rw [same] at present
      exact .commit (.enter present rfl) ((Goes.refl _).resume rfl rfl)
    · cases told

theorem preparing_goes {record : Record} : Goes issuer s (s.preparing t record turn) := by
  unfold Inner.preparing
  split
  · exact (Goes.refl _).resume rfl rfl
  · exact (Goes.refl _).resume rfl rfl

/-- A dispatch that fails to be saved spawns nothing. -/
theorem dispatching_steps {record : Record} (off : Off config issuer s t) (point : t.point = .dispatching record) :
    Steps config issuer (s.back t) (s.dispatching t record turn) := by
  obtain ⟨row, found, _, expects⟩ := off.placed.expects (by rw [point]; rfl)
  rw [point] at expects
  obtain ⟨live, created, fresh⟩ := expects
  unfold Inner.dispatching Inner.edit
  split
  · exact .calm (.refl s)
  split
  · exact .calm (.refl s)
  next after journal changed =>
    obtain ⟨before, present, changed⟩ := bind_ok.mp changed
    obtain ⟨made, done, changed⟩ := bind_ok.mp changed
    cases pure_ok.mp changed
    cases done
    obtain rfl := Option.some.inj ((okOr_ok.mp present).symm.trans found)
    have change : Change issuer s { s.journal with records := s.journal.records.insert t.allocation before.dispatch } :=
      .edit found (Row.dispatch_follows created) rfl
    refine commit_keeps (.calm (.saved change)) ?_
    have present : (s.journal.records.insert t.allocation before.dispatch).lookup t.allocation = some before.dispatch :=
      AList.lookup_insert _
    have left : Goes issuer (s.back t) s := goes_back s t
    exact .dispatched t before _ _ found fresh (left.trans (.saved change))
      ⟨.inl ⟨_, present, rfl⟩, .of (.inl ⟨_, present, rfl⟩)⟩ rfl

theorem spawning_steps {record : Record} (off : Off config issuer s t) (point : t.point = .spawning record) :
    Steps config issuer (s.back t) (s.spawning t record turn) := by
  have gated : t.point.gated = true := by
    rw [point]
    rfl
  obtain ⟨row, found, gate, expects⟩ := off.placed.expects (by rw [point]; rfl)
  rw [point] at expects
  -- Another thread that could spawn the allocation would hold the same gate.
  have last : ∀ u ∈ s.threads, u.point.spawns = true → u.allocation ≠ t.allocation := by
    intro u member spawns same
    obtain ⟨record', at_⟩ : ∃ record', u.point = .spawning record' := by
      cases u_point : u.point <;> rw [u_point] at spawns <;> first | exact ⟨_, rfl⟩ | cases spawns
    obtain ⟨held, present, own, _⟩ := (off.inv.threads u member).expects (by rw [at_]; rfl)
    rw [same, found] at present
    obtain rfl := Option.some.inj present
    exact (off.apart u member).gate row.gate ⟨gated, gate.symm⟩ ⟨by rw [at_]; rfl, own.symm⟩
  unfold Inner.spawning
  split
  · refine .told (.spawned t.allocation) ⟨⟨row, found, expects.1⟩, t, List.mem_cons_self, by rw [point]; rfl, rfl⟩ ?_ ?_
    · exact (goes_back (s.tell (.spawned t.allocation)) t).trans ((Goes.refl _).resume rfl rfl)
    · intro allocation told u member spawns
      cases told
      rcases List.mem_cons.mp member with rfl | member
      · cases spawns
      · exact last u member spawns
  · exact .calm ((Goes.refl _).resume rfl rfl)

theorem stopping_goes {record : Record} : Goes issuer s (s.stopping t record turn) := by
  refine .edit (fun before _ _ changed => ?_) fun _ _ => (Goes.refl _).resume rfl rfl
  cases changed
  exact before.stop_follows

theorem observing_goes {record : Record} : Goes issuer s (s.observing t record turn) := by
  unfold Inner.observing
  split
  · exact .refl s
  split
  · exact .refl s
  split
  · exact (Goes.refl s).resume rfl rfl
  · exact .refl s

theorem releasing_goes : Goes issuer s (s.releasing t turn) := by
  refine .withRow fun row _ => ?_
  split
  · exact .refl s
  · refine .edit (fun before after _ changed => ?_) fun after journal => .refl _
    cases changed
    exact before.release_follows

theorem editing_goes : Goes issuer s (s.editing t turn) :=
  .edit (fun _ _ _ => Row.touch_follows) fun _ _ => (Goes.refl _).resume rfl rfl

theorem pin_goes {allocation : AllocationId} : Goes issuer s (s.pin allocation) := by
  refine .withRow fun row _ => ?_
  split
  · exact (Goes.refl s).resume rfl rfl
  · exact .refl s

theorem reading_goes : Goes issuer s (s.reading t turn) := by
  unfold Inner.reading
  split
  next expires _ =>
    obtain ⟨tickets, changed⟩ := reserve_tickets (s.prune turn.now) t.allocation expires
    rw [changed]
    have same : Goes issuer s { s with tickets } := .congr rfl rfl rfl rfl rfl rfl fun _ member => member
    exact same.resume rfl rfl
  next index _ _ =>
    have same : Goes issuer s (s.releaseTicket index) := .congr rfl rfl rfl rfl rfl rfl fun _ member => member
    exact same.resume rfl rfl
  · exact .refl s

/-! ### Retiring -/

theorem freeze_goes (inv : Inv config issuer s) : Goes issuer s (s.freeze config texts request retire turn) := by
  unfold Inner.freeze
  split
  · exact .refl s
  split
  · exact .refl s
  next bounds row passed =>
    obtain ⟨_, checked, passed⟩ := bind_ok.mp passed
    obtain ⟨_, chosen, passed⟩ := bind_ok.mp passed
    cases pure_ok.mp passed
    have active := freezeCheck_active inv checked
    obtain ⟨_, before, found, same⟩ := frozenRow_ok chosen
    have moved : Goes issuer s { s with nextGate := s.nextGate + 1 } :=
      .congr rfl rfl rfl rfl rfl rfl fun _ member => member
    have retiring : row.Retiring := by
      rw [same]
      intro never
      cases never
    have present : (s.journal.records.insert request.intent.permit.allocation row).lookup request.intent.permit.allocation =
        some row := AList.lookup_insert _
    refine moved.trans (.commit ?_ ((Goes.refl _).onward rfl rfl ⟨.inl ⟨row, present, retiring⟩, .of (.inl ⟨row, present, retiring⟩)⟩))
    rcases found with present | ⟨absent, _⟩
    · exact .edit present (same ▸ freeze_follows before) rfl
    · exact .insert absent (fun known => active (known.congr rfl)) rfl

/-- A thread that retires its row relies on it up to the end. -/
theorem Thread.Fair.retiring (fair : t.Fair issuer s) (relies : t.point.relies = some Row.Retiring) :
    Holds issuer s Row.Retiring t.allocation := fair _ relies

theorem fencing_goes {minimum : Checkpoint} (inv : Inv config issuer s)
    (point : t.point = .fencing request minimum retire) (fair : t.Fair issuer s) :
    Goes issuer s (s.fencing config texts t request minimum retire turn) := by
  have holds := fair.retiring (by rw [point]; rfl)
  unfold Inner.fencing
  split
  · exact .rewrite inv (fun _ _ issued h => (fence_forward issued h).1) (fun _ _ _ issued h => fence_closed issued h)
      fun s' goes => (Goes.refl s').onward rfl rfl (goes.keeps.holds _ _ lasting_retiring holds)
  · exact .refl s

theorem draining_goes (point : t.point = .draining request retire) (fair : t.Fair issuer s) :
    Goes issuer s (s.draining t request retire) := by
  have holds := fair.retiring (by rw [point]; rfl)
  unfold Inner.draining
  split
  · exact (Goes.refl s).onward rfl rfl holds
  · exact .refl s

theorem prune_goes (s : Inner) (now : ℤ) : Goes issuer s (s.prune now) :=
  .congr rfl rfl rfl rfl rfl rfl fun _ member => member

theorem ticketing_goes (point : t.point = .ticketing request retire) (fair : t.Fair issuer s) :
    Goes issuer s (s.ticketing t request retire turn) := by
  have pruned : Goes issuer s (s.prune turn.now) := prune_goes s turn.now
  have holds := pruned.keeps.holds _ _ lasting_retiring (fair.retiring (by rw [point]; rfl))
  unfold Inner.ticketing
  dsimp only
  split
  · exact pruned
  · exact pruned.onward rfl rfl holds

/-- A fence is acknowledged while the gate and the readers are held and no ticket is pending. -/
theorem acknowledging_steps (off : Off config issuer s t) (point : t.point = .acknowledging request retire)
    (fair : t.Fair issuer s) :
    Steps config issuer (s.back t) (s.acknowledging t request retire turn) := by
  obtain ⟨row, found, gate, _⟩ := off.placed.expects (by rw [point]; rfl)
  have names := off.placed.names
  have knows := off.placed.knows
  have holds := fair.retiring (by rw [point]; rfl)
  have clear := off.placed.tickets (by rw [point]; rfl)
  rw [point] at names knows
  have same : request.intent.permit.allocation = t.allocation := names _ (Option.mem_def.mpr rfl)
  unfold Inner.acknowledging
  split
  · exact .calm (.refl s)
  · have due : Fact.Due config issuer (s.back t) (.fenced request) := by
      refine ⟨?_, ?_, by rw [same]; exact clear, fun u member own reading => ?_⟩
      · rw [same]
        exact holds.imp rfl rfl fun known => known.congr rfl
      · rw [same]
        exact (knows _ (Option.mem_def.mpr rfl)).congr rfl
      · rcases List.mem_cons.mp member with rfl | member
        · cases point.symm.trans reading
        · obtain ⟨held, present, pinned, _⟩ := (off.inv.threads u member).expects (by rw [reading]; rfl)
          rw [own, same, found] at present
          obtain rfl := Option.some.inj present
          exact (off.apart u member).readers row.gate ⟨by rw [point]; rfl, gate.symm⟩ ⟨reading, pinned.symm⟩
    refine .told (.fenced request) due ((goes_back (s.tell (.fenced request)) t).trans ?_) fun allocation told => ?_
    · dsimp only
      split
      · exact (Goes.refl _).onward rfl rfl (holds.imp rfl rfl fun known => known.congr rfl)
      · exact .refl _
    · cases told

theorem surveying_goes (point : t.point = .surveying request) (fair : t.Fair issuer s) :
    Goes issuer s (s.surveying config texts t request turn) := by
  have pruned : Goes issuer s (s.prune turn.now) := prune_goes s turn.now
  have holds := pruned.keeps.holds _ _ lasting_retiring (fair.retiring (by rw [point]; rfl))
  refine .withRow fun row _ => ?_
  dsimp only
  split
  · exact pruned
  · split
    · exact pruned.onward rfl rfl holds
    · split
      · exact pruned
      · exact pruned.onward rfl rfl holds

theorem planning_goes {plan : Plan} (off : Off config issuer s t) (point : t.point = .planning request row plan)
    (fair : t.Fair issuer s) :
    Goes issuer s (s.planning t request row plan turn) := by
  obtain ⟨present, found, _, expects⟩ := off.placed.expects (by rw [point]; rfl)
  rw [point] at expects
  rw [show present = row from expects] at found
  unfold Inner.planning
  split
  · exact .refl s
  · have change : Change issuer s { s.journal with
        records := s.journal.records.insert t.allocation { row with metadataRetirement := some { plan, removed := false } } } :=
      .edit found (plan_follows row _) rfl
    have holds := fair.retiring (by rw [point]; rfl)
    exact .commit change ((Goes.refl _).onward rfl rfl ((Retains.saved change).holds _ _ lasting_retiring holds))

theorem unlinking_goes {saved : Saved} (point : t.point = .unlinking request row saved) (fair : t.Fair issuer s) :
    Goes issuer s (s.unlinking t request row saved turn) := by
  have holds := fair.retiring (by rw [point]; rfl)
  have changed : ∀ runtime, Goes issuer s (s.setRuntime t.allocation runtime) := fun runtime =>
    .congr rfl rfl rfl rfl rfl rfl fun _ member => member
  unfold Inner.unlinking
  split
  · split
    · exact (changed _).onward rfl rfl ((changed _).keeps.holds _ _ lasting_retiring holds)
    · exact .refl s
  · split
    · exact .refl s
    · dsimp only
      split
      · exact (changed _).onward rfl rfl ((changed _).keeps.holds _ _ lasting_retiring holds)
      · exact changed _

theorem finishing_steps {saved : Saved} (off : Off config issuer s t)
    (point : t.point = .finishing request row saved) (fair : t.Fair issuer s) :
    Steps config issuer (s.back t) (s.finishing t request row saved turn) := by
  obtain ⟨present, found, _, expects⟩ := off.placed.expects (by rw [point]; rfl)
  have names := off.placed.names
  have knows := off.placed.knows
  rw [point] at expects names knows
  rw [show present = _ from expects] at found
  have known : Known issuer s .fenced t.allocation := knows _ (Option.mem_def.mpr rfl)
  have holds := fair.retiring (by rw [point]; rfl)
  have same : request.intent.permit.allocation = t.allocation := names _ (Option.mem_def.mpr rfl)
  unfold Inner.finishing
  split
  · exact .calm (.refl s)
  · have change : Change issuer s { s.journal with
        records := s.journal.records.insert t.allocation { row with metadataRetirement := some { saved with removed := true } } } :=
      .edit found (plan_follows _ _) rfl
    dsimp only
    refine commit_keeps (.calm (.saved change)) ?_
    split
    · exact .calm (.saved change)
    · -- The fact is told of the state before the save, which changes none of what it says.
      refine .told (.retired request) ?_ ?_ fun allocation told => ?_
      · show Holds issuer (s.back t) Row.Retiring request.intent.permit.allocation ∧
          Known issuer (s.back t) .fenced request.intent.permit.allocation
        rw [same]
        exact ⟨holds.imp rfl rfl fun known => known.congr rfl, known.congr rfl⟩
      · exact (goes_back (s.tell (.retired request)) t).trans ((Goes.saved change).tell _)
      · cases told

/-! ### Forgetting -/

/-- While no save has failed, the file says what the journal in memory says. -/
theorem holds_of_clean {Q : Row → Prop} {allocation : AllocationId} (clean : Clean s) (up : s.up = true)
    (healthy : ¬s.poisoned = true) (marked : Marked issuer s Q allocation s.journal) : Holds issuer s Q allocation := by
  refine ⟨marked, ?_⟩
  rw [clean up (Bool.not_eq_true _ ▸ healthy)]
  exact .of marked

theorem verifyForgetting_retiring {runtime : Runtime} {epoch : ℤ} {outcome : Unit}
    (verified : verifyForgetting texts row runtime epoch forget = .ok outcome) : row.Retiring := by
  obtain ⟨same, _⟩ := seq_ok.mp verified
  intro absent
  cases absent.symm.trans (ensure_ok.mp same)

theorem forget_steps (inv : Inv config issuer s) (clean : Clean s) (up : s.up = true) :
    Steps config issuer s (s.forget config texts forget turn) := by
  unfold Inner.forget
  split
  · exact .quiet (.refl s)
  next healthy =>
    dsimp only
    have pruned : Goes issuer s (s.prune turn.now) := prune_goes s turn.now
    split
    · exact .quiet pruned
    next phase checked =>
      obtain ⟨_, _, bounds, file, has, guarded⟩ := forgetCheck_ok checked
      have synced := pruned.trans (.syncAuthority (s.prune turn.now))
      have absent : Goes issuer s (((s.prune turn.now).syncAuthority).syncRuntime forget.claim.intent.permit.allocation) :=
        synced.trans (.congr rfl rfl rfl rfl rfl rfl fun _ member => member)
      split
      next row found =>
        have retiring : ∀ {outcome}, verifyForgetting texts row ((s.prune turn.now).syncAuthority.seen
              forget.claim.intent.permit.allocation) s.journal.epoch forget = .ok outcome →
            Holds issuer (((s.prune turn.now).syncAuthority).syncRuntime forget.claim.intent.permit.allocation)
              Row.Retiring forget.claim.intent.permit.allocation := by
          intro outcome verified
          have mark := verifyForgetting_retiring verified
          exact absent.keeps.holds _ _ lasting_retiring (holds_of_clean clean up healthy (.inl ⟨row, found, mark⟩))
        split
        next verified => exact .quiet (absent.onward rfl rfl (retiring verified))
        next verified => exact .quiet (absent.onward rfl rfl (retiring verified))
        · exact .quiet synced
      next missing =>
        split
        · have past := retirementGuard_complete (inv.authority file (Option.mem_def.mpr has)).1 guarded
          have complete : Known issuer (s.prune turn.now).syncAuthority .complete forget.claim.intent.permit.allocation := by
            refine ⟨file.sync, ?_, .of past⟩
            show s.authority.map sync = some file.sync
            rw [show s.authority = some file from has]
            rfl
          have vacant : Vacant issuer _ _ := holds_of_clean (synced.keeps.clean clean) up healthy (.inr ⟨missing, complete⟩)
          have moved : Goes issuer s { ((s.prune turn.now).syncAuthority).syncRuntime forget.claim.intent.permit.allocation with
              nextGate := s.nextGate + 1 } := absent.trans (.congr rfl rfl rfl rfl rfl rfl fun _ member => member)
          exact .quiet (moved.onward rfl rfl (vacant.imp rfl rfl fun known => known.congr rfl))
        · refine .told (.forgotten forget .retired) ⟨missing, fun same => by cases same⟩ (absent.tell _) fun _ told => ?_
          cases told
        · exact .quiet synced

theorem completing_goes (inv : Inv config issuer s) (point : t.point = .completing forget) (fair : t.Fair issuer s) :
    Goes issuer s (s.completing texts t forget turn) := by
  have holds := fair.retiring (by rw [point]; rfl)
  exact .rewrite inv (fun _ _ issued h => (complete_forward issued h).1) (fun _ _ _ issued h => complete_closed issued h)
    fun s' goes => (Goes.refl s').onward rfl rfl (goes.keeps.holds _ _ lasting_retiring holds)

theorem removing_steps (off : Off config issuer s t) (point : t.point = .removing forget) (fair : t.Fair issuer s) :
    Steps config issuer (s.back t) (s.removing t forget turn) := by
  have knows := off.placed.knows
  rw [point] at knows
  have complete : Known issuer s .complete t.allocation := knows _ (Option.mem_def.mpr rfl)
  have holds := fair.retiring (by rw [point]; rfl)
  unfold Inner.removing
  split
  · exact .calm (.refl s)
  · refine .told (.removed t.allocation) ⟨complete.congr rfl, holds.imp rfl rfl fun known => known.congr rfl⟩
      ((goes_back (s.tell (.removed t.allocation)) t).trans ?_) fun allocation told => ?_
    · refine .commit (.erase (complete.congr rfl) rfl) ((Goes.refl _).onward rfl rfl ?_)
      have gone := AList.lookup_erase t.allocation s.journal.records
      exact ⟨.inr ⟨gone, complete.congr rfl⟩, .of (.inr ⟨gone, complete.congr rfl⟩)⟩
    · cases told

theorem syncing_goes (point : t.point = .syncing forget) (fair : t.Fair issuer s) :
    Goes issuer s (s.syncing t forget) := by
  have vacant : Vacant issuer s t.allocation := fair _ (by rw [point]; rfl)
  have moved : ∀ {P : Row → Prop} {allocation : AllocationId}, Holds issuer s P allocation →
      Holds issuer { s with file := s.file.sync } P allocation := by
    intro P allocation holds
    exact ⟨holds.journal.imp fun known => known.congr rfl, .of (holds.file.1.imp fun known => known.congr rfl)⟩
  have synced : Goes issuer s { s with file := s.file.sync } := by
    refine ⟨⟨fun _ _ known => known.congr rfl, fun Q allocation _ holds => moved holds, fun clean up healthy => ?_⟩,
      rfl, fun _ member => .inl member, fun _ => .inl⟩
    have same := clean up healthy
    show s.file.sync = .of s.journal
    rw [same]
    rfl
  exact synced.onward rfl rfl (moved vacant)

theorem closing_steps (off : Off config issuer s t) (point : t.point = .closing forget) (fair : t.Fair issuer s) :
    Steps config issuer (s.back t) (s.closing texts forget turn) := by
  have names := off.placed.names
  rw [point] at names
  have same : forget.claim.intent.permit.allocation = t.allocation := names _ (Option.mem_def.mpr rfl)
  have vacant : Vacant issuer s forget.claim.intent.permit.allocation := by
    rw [same]
    exact fair _ (by rw [point]; rfl)
  unfold Inner.closing
  split
  · exact .calm (.refl s)
  unfold Inner.rewrite
  split
  · exact .calm (.refl s)
  next file has =>
    split
    · exact .calm (.refl s)
    next saved changed =>
      have issued := (off.inv.authority file (Option.mem_def.mpr has)).1
      have written : ∀ write, Goes issuer s { s with authority := some (file.write saved write) } := by
        refine fun write => .authority has (fun _ _ => (forget_forward issued changed).past) fun allocation closed => ?_
        obtain ⟨n, low, owner, top⟩ := closed
        rcases forget_closed issued changed (Stage.closed_le top) with before | own
        · exact .inl ⟨n, low, owner, before.ge⟩
        · rw [own] at owner
          exact .inr (owner ▸ vacant)
      dsimp only
      split
      next done =>
        refine .told (.forgotten forget .forgotten) ⟨?_, fun _ => vacant.imp rfl rfl fun known => known.congr rfl⟩
          ((goes_back (s.tell _) t).trans ((written turn.write).tell _)) fun allocation told => ?_
        · rcases vacant.journal with ⟨row, _, never⟩ | gone
          · cases never
          · exact gone.1
        · cases told
      · exact .calm (written turn.write)

/-! ### Registering, failing and starting -/

theorem checkpointed_goes (goes : Goes issuer s s') : Goes issuer s (s'.checkpointed t) := by
  unfold Inner.checkpointed
  split
  · exact goes
  · exact goes.resume rfl rfl

theorem register_goes {first count : ℕ} (inv : Inv config issuer s)
    (words : ∀ k < count, (issuer.permit (first + k)).Words) :
    Goes issuer s (s.register config texts issuer first count turn) := by
  have batch : (∀ p ∈ (List.range count).map fun k => issuer.permit (first + k), p.Words) ∧
      ∀ p ∈ (List.range count).map fun k => issuer.permit (first + k), p = issuer.permit p.serial := by
    refine ⟨fun p member => ?_, fun p member => ?_⟩
    · obtain ⟨k, low, rfl⟩ := List.mem_map.mp member
      exact words k (List.mem_range.mp low)
    · obtain ⟨k, _, rfl⟩ := List.mem_map.mp member
      rw [issuer.serial]
  unfold Inner.register
  dsimp only
  split
  · exact .refl s
  split
  · split
    · exact .refl s
    · split
      · exact .refl s
      · split
        · exact checkpointed_goes (.syncAuthority s)
        · exact .refl s
  · split
    · exact .rewrite inv (fun file saved issued h => register_forward issued batch.1 batch.2 h)
        (fun file saved n issued h => register_closed issued batch.1 batch.2 h) fun s' _ => checkpointed_goes (.refl s')
    · exact .refl s

theorem checkpointing_goes {checkpoint : Checkpoint} : Goes issuer s (s.checkpointing checkpoint turn) := by
  unfold Inner.checkpointing
  split
  · exact .refl s
  · split
    · exact .refl s
    · exact .commit (.same rfl) (.refl _)

/-- What every copy says, the copy that a crash leaves says. -/
theorem crash_goes (s : Inner) : Goes issuer s s.crash := by
  have kept : ∀ {P : Row → Prop} {allocation : AllocationId} {journal : Journal}, Marked issuer s P allocation journal →
      Marked issuer s.crash P allocation journal := fun marked => marked.imp fun known => known.congr rfl
  refine ⟨⟨fun _ _ known => known.congr rfl, fun Q allocation _ holds => ?_, fun _ up => ?_⟩, rfl, fun _ member => ?_,
    fun _ => .inl⟩
  · exact ⟨kept holds.file.1, holds.file.imp fun _ => kept⟩
  · cases up
  · cases member

theorem powerLoss_goes (journal authority : Bool) (runtime : AllocationId → Bool) :
    Goes issuer s (s.powerLoss journal authority runtime) := by
  have known : ∀ {stage : Stage} {allocation : AllocationId}, Known issuer s stage allocation →
      Known issuer (s.powerLoss journal authority runtime) stage allocation := by
    rintro stage allocation ⟨file, has, past⟩
    refine ⟨file.recover authority, ?_, past.recover authority⟩
    show s.authority.map (·.recover authority) = some (file.recover authority)
    rw [has]
    rfl
  refine ⟨⟨fun _ _ => known, fun Q allocation _ holds => ?_, fun _ up => ?_⟩, rfl, fun _ member => ?_, ?_⟩
  · have file := (holds.file.recover journal).imp fun _ marked => marked.imp known
    exact ⟨file.1, file⟩
  · cases up
  · cases member
  · rintro allocation ⟨file, same, closed⟩
    obtain ⟨old, has, rfl⟩ := Option.map_eq_some_iff.mp (Option.mem_def.mp same)
    refine .inl ⟨old, Option.mem_def.mpr has, ?_⟩
    have either : Past issuer .closed allocation (old.recover authority).visible := closed.elim id id
    cases authority with
    | true => exact .inl either
    | false => exact .inr either

/-- A save of a host that is starting. -/
theorem stored_goes {journal : Journal} {write : Write} (down : s.up = false)
    (marks : ∀ Q allocation, Row.Lasting Q → Holds issuer s Q allocation → Marked issuer s Q allocation journal) :
    Goes issuer s { s with journal, file := s.file.write journal write } := by
  have kept : ∀ {P : Row → Prop} {allocation : AllocationId} {journal' : Journal}, Marked issuer s P allocation journal' →
      Marked issuer { s with journal, file := s.file.write journal write } P allocation journal' :=
    fun marked => marked.imp fun known => known.congr rfl
  refine ⟨⟨fun _ _ known => known.congr rfl, fun Q allocation lasting holds => ?_, fun _ up => ?_⟩, rfl,
    fun _ member => .inl member, fun _ => .inl⟩
  · have marked := marks Q allocation lasting holds
    exact ⟨kept marked, (holds.file.write marked write).imp fun _ => kept⟩
  · cases down.symm.trans up

theorem ready_goes {floor : Checkpoint} (same : s.file = .of s.journal) : Goes issuer s (s.ready floor) :=
  ⟨⟨fun _ _ known => known.congr rfl, fun _ _ _ holds => holds.imp rfl rfl fun known => known.congr rfl,
    fun _ _ _ => same⟩, rfl, fun _ member => .inl member, fun _ => .inl⟩

theorem bound_goes {floor : Checkpoint} {file : AuthorityFile} {write : Write} (down : s.up = false) :
    Goes issuer s (s.bound floor file write) := by
  unfold Inner.bound launchStep
  dsimp only
  have saved := @stored_goes issuer s
    { s.journal with launchAuthority := some { epoch := file.epoch, registeredThrough := file.ledger.through } } write down
    fun Q allocation _ holds => holds.journal
  split
  next done =>
    subst done
    exact saved.trans (ready_goes rfl)
  · exact saved

/-- The authority of a new epoch closes nothing. -/
theorem advanced_goes {epoch : ℤ} {second third : Write} (down : Down config issuer s) (off : s.up = false)
    (same : s.file = .of s.journal) : Goes issuer s (s.advanced config texts epoch second third) := by
  unfold Inner.advanced
  split
  · exact .refl s
  · exact ready_goes same
  next retained next opens =>
    have moved : Goes issuer s { s with authority := s.authority.map fun old => old.sync.write next second } := by
      cases has : s.authority with
      | none => exact .congr rfl rfl rfl rfl has.symm rfl fun _ member => member
      | some old =>
        have issued := down.authority old (Option.mem_def.mpr has)
        have ledger := (openAuthority_ledger has issued.1 opens).2
        have same : ∀ stage allocation, Past issuer stage allocation next ↔ Past issuer stage allocation old.visible := by
          intro stage allocation
          unfold Past
          rw [ledger]
        have synced : s.syncAuthority.authority = some old.sync := by
          show s.authority.map sync = some old.sync
          rw [has]
          rfl
        exact (Goes.syncAuthority s).trans (.authority synced (fun stage allocation => (same stage allocation).mpr)
          fun allocation closed => .inl ((same _ allocation).mp closed))
    unfold launchStep
    dsimp only
    split
    · exact moved.trans (bound_goes off)
    · exact moved

theorem start_goes {epoch : ℤ} {accepted : Bool} {first second third : Write} (inv : Inv config issuer s) :
    Goes issuer s (s.start config texts epoch accepted first second third) := by
  unfold Inner.start
  split
  · exact .refl s
  next stopped =>
    have off : s.up = false := Bool.not_eq_true _ ▸ stopped
    split
    · exact .refl s
    next journal opens =>
      obtain rfl := opened_ok opens
      have saved := @stored_goes issuer s (s.file.visible.stopAll epoch) first off
        fun Q allocation lasting holds => marked_stop lasting holds.file.1
      have sound := inv.file.1.stopAll
      have down : Down config issuer
          { s with journal := s.file.visible.stopAll epoch, file := s.file.write (s.file.visible.stopAll epoch) first } :=
        ⟨inv.down off, sound, inv.file.write sound first, inv.authority⟩
      unfold launchStep
      dsimp only
      split
      next done =>
        subst done
        exact saved.trans (advanced_goes down off rfl)
      · exact saved

theorem guardian_goes {allocation : AllocationId} {runtime : Runtime} : Goes issuer s (s.guardian allocation runtime) := by
  unfold Inner.guardian
  split
  · exact .congr rfl rfl rfl rfl rfl rfl fun _ member => member
  · exact .refl s

/-! ### One step -/

theorem proceed_steps (off : Off config issuer s t) (fair : t.Fair issuer s) :
    Steps config issuer (s.back t) (s.proceed config texts t turn) := by
  unfold Inner.proceed
  split
  next => exact .calm (arriving_goes off.inv)
  next task point =>
    split
    · exact .calm ((Goes.refl s).resume rfl rfl)
    · exact .calm ((Goes.refl s).resume rfl rfl)
  next => exact .calm held_goes
  next point => exact admitting_steps off point
  next => exact .calm preparing_goes
  next point => exact dispatching_steps off point
  next point => exact spawning_steps off point
  next => exact .calm (.refl s)
  next => exact .calm stopping_goes
  next => exact .calm observing_goes
  next => exact .calm releasing_goes
  next => exact .calm editing_goes
  next point => exact .calm (fencing_goes off.inv point fair)
  next point => exact .calm (draining_goes point fair)
  next point => exact .calm (ticketing_goes point fair)
  next point => exact acknowledging_steps off point fair
  next point =>
    refine .calm (.withRow fun _ _ => (Goes.refl s).onward rfl rfl ?_)
    exact fair.retiring (by rw [point]; rfl)
  next point =>
    split
    · exact .calm ((Goes.refl s).onward rfl rfl (fair.retiring (by rw [point]; rfl)))
    · exact .calm (.refl s)
  next point => exact .calm (surveying_goes point fair)
  next point => exact .calm (planning_goes off point fair)
  next point => exact .calm (unlinking_goes point fair)
  next point => exact finishing_steps off point fair
  next point => exact .calm (completing_goes off.inv point fair)
  next point => exact removing_steps off point fair
  next point => exact .calm (syncing_goes point fair)
  next point => exact closing_steps off point fair
  next => exact .calm checkpointing_goes
  next => exact .calm reading_goes

theorem advance_steps {index : ℕ} (inv : Inv config issuer s) (fair : ∀ u ∈ s.threads, u.Fair issuer s) :
    Steps config issuer s (s.advance config texts index turn) := by
  unfold Inner.advance
  split
  · exact .quiet (.refl s)
  next t at_ =>
    dsimp only
    split
    · exact .quiet (.refl s)
    · have perm := take_off at_
      have own : t ∈ s.threads := perm.mem_iff.mpr List.mem_cons_self
      have steps := @proceed_steps config texts issuer _ t turn (inv.off at_) ((fair t own).congr rfl rfl rfl)
      exact Steps.listed (fun u => perm.symm.mem_iff) steps

/-- Every step of a host, whatever is asked of it. -/
theorem step_steps (event : Event) (inv : Inv config issuer s) (clean : Clean s)
    (fair : ∀ u ∈ s.threads, u.Fair issuer s) (words : event.Words issuer) :
    Steps config issuer s (s.step config texts issuer event) := by
  cases event with
  | request task turn =>
    show Steps config issuer s (if s.up = true then s.request config texts task turn else s)
    split
    · unfold Inner.request
      split
      · exact .quiet (.refl s)
      · exact .quiet ((Goes.refl s).resume rfl rfl)
    · exact .quiet (.refl s)
  | fence request retire turn =>
    show Steps config issuer s (if s.up = true ∧ JournalFree s.threads then s.freeze config texts request retire turn else s)
    split
    · exact .quiet (freeze_goes inv)
    · exact .quiet (.refl s)
  | forget request turn =>
    show Steps config issuer s (if s.up = true ∧ JournalFree s.threads then s.forget config texts request turn else s)
    split
    next free => exact forget_steps inv clean free.1
    · exact .quiet (.refl s)
  | register first count turn =>
    show Steps config issuer s (if s.up = true ∧ JournalFree s.threads then s.register config texts issuer first count turn else s)
    split
    · exact .quiet (register_goes inv words)
    · exact .quiet (.refl s)
  | pin allocation =>
    show Steps config issuer s (if s.up = true ∧ JournalFree s.threads then s.pin allocation else s)
    split
    · exact .quiet pin_goes
    · exact .quiet (.refl s)
  | advance index turn =>
    show Steps config issuer s (if s.up = true then s.advance config texts index turn else s)
    split
    · exact advance_steps inv fair
    · exact .quiet (.refl s)
  | guardian allocation runtime => exact .quiet guardian_goes
  | crash => exact .quiet (crash_goes s)
  | powerLoss journal authority runtime => exact .quiet (powerLoss_goes journal authority runtime)
  | start epoch accepted first second third => exact .quiet (start_goes inv)

end
end HudsonSandbox.Inner
