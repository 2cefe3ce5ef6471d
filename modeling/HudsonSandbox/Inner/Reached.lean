import HudsonSandbox.Inner.Told

/-!
# What holds of a host at any time

The invariants of every reachable state: what the rows hold of the capacity, how the rows of one
sandbox follow one another, and in which order a host can have said what it has said.
-/

namespace HudsonSandbox.Inner
open Checked Supervisor AllocationAuthority AllocationRetirement Stored Host Ledger Run
open LiveOutput hiding Status

/-- The allocation is admitted to the host, or its guardian is spawned. -/
def Fact.Begins (allocation : AllocationId) : Fact → Prop
  | .admitted id _ | .spawned id => id = allocation
  | _ => False

/-- The allocation is fenced, or its row is gone. -/
def Fact.Ends (allocation : AllocationId) : Fact → Prop
  | .fenced request | .retired request => request.intent.permit.allocation = allocation
  | .removed id => id = allocation
  | .forgotten request state => state = .forgotten ∧ request.claim.intent.permit.allocation = allocation
  | .admitted .. | .spawned _ => False

/-- What a host may say after it has said something else. -/
structure Fact.Orderly (later earlier : Fact) : Prop where
  ended : ∀ allocation, earlier.Ends allocation → ¬later.Begins allocation
  spawned : ∀ allocation, earlier = .spawned allocation → ¬later.Begins allocation

/-- What stays true of a host that has said so. -/
def Fact.Lasts (config : Config) (issuer : Issuer) (s : Inner) : Fact → Prop
  | .admitted allocation before => ∃ o, o.allocationId = allocation ∧ Admissible config o before
  | .spawned allocation => Holds issuer s Row.Dispatched allocation ∧
      ∀ u ∈ s.threads, u.point.spawns = true → u.allocation ≠ allocation
  | .fenced request | .retired request => Holds issuer s Row.Retiring request.intent.permit.allocation ∧
      Known issuer s .fenced request.intent.permit.allocation
  | .removed allocation => Holds issuer s Row.Retiring allocation ∧ Known issuer s .complete allocation
  | .forgotten request state => state = .forgotten → Vacant issuer s request.claim.intent.permit.allocation

structure Lawful (config : Config) (issuer : Issuer) (s : Inner) : Prop where
  inv : Inv config issuer s
  clean : Clean s
  fair : ∀ u ∈ s.threads, u.Fair issuer s
  closed : ∀ allocation, Closed issuer s allocation → Vacant issuer s allocation
  facts : ∀ fact ∈ s.facts, Fact.Lasts config issuer s fact
  order : s.facts.Pairwise Fact.Orderly

section
variable {config : Config} {texts : Texts} {issuer : Issuer} {s s' : Inner} {fact earlier : Fact}

theorem Holds.row {Q : Row → Prop} {id : AllocationId} {row : Row} (holds : Holds issuer s Q id)
    (found : s.journal.records.lookup id = some row) : Q row := by
  rcases holds.journal with ⟨held, present, mark⟩ | gone
  · cases found.symm.trans present
    exact mark
  · cases found.symm.trans gone.1

/-- The row of an allocation that has ended cannot be live. -/
theorem Fact.Lasts.ended {allocation : AllocationId} {row : Row} (lasts : Fact.Lasts config issuer s earlier)
    (ends : earlier.Ends allocation) (found : s.journal.records.lookup allocation = some row) : ¬row.Live := by
  intro live
  cases earlier with
  | admitted id before => exact ends
  | spawned id => exact ends
  | fenced request =>
    cases ends
    exact lasts.1.row found live.retirement
  | retired request =>
    cases ends
    exact lasts.1.row found live.retirement
  | removed id =>
    cases ends
    exact lasts.1.row found live.retirement
  | forgotten request state =>
    obtain ⟨forgotten, rfl⟩ := ends
    exact (lasts forgotten).row found

/-- What is due now may be said after all that has been said. -/
theorem Fact.Due.orderly (sound : Sound config.capacity s.nextGate s.journal.records)
    (due : Fact.Due config issuer s fact) (lasts : Fact.Lasts config issuer s earlier) : Fact.Orderly fact earlier := by
  refine ⟨fun allocation ends begins => ?_, fun allocation same begins => ?_⟩
  · cases fact with
    | admitted id before =>
      cases begins
      obtain ⟨rfl, o, rfl, ⟨row, found, live, _⟩, _, _⟩ := due
      exact lasts.ended ends found live
    | spawned id =>
      cases begins
      obtain ⟨⟨row, found, live⟩, _⟩ := due
      exact lasts.ended ends found live
    | _ => exact begins
  · subst same
    cases fact with
    | admitted id before =>
      cases begins
      obtain ⟨rfl, o, rfl, ⟨row, found, live, uncreated⟩, _, _⟩ := due
      have rows := sound.rows _ row found
      have created := rows.dispatched (lasts.1.row found)
      rw [Row.Created, ← rows.created, uncreated] at created
      cases created
    | spawned id =>
      cases begins
      obtain ⟨_, u, member, spawns, own⟩ := due
      exact lasts.2 u member spawns own
    | _ => exact begins

theorem Fact.Lasts.congr (lasts : Fact.Lasts config issuer s fact) (keeps : Retains issuer s s')
    (threads : ∀ allocation, fact = .spawned allocation → ∀ u ∈ s'.threads, u.point.spawns = true →
      u.allocation = allocation → u ∈ s.threads) : Fact.Lasts config issuer s' fact := by
  cases fact with
  | admitted id before => exact lasts
  | spawned id =>
    refine ⟨keeps.holds _ _ lasting_dispatched lasts.1, fun u member spawns own => ?_⟩
    exact lasts.2 u (threads id rfl u member spawns own) spawns own
  | fenced request => exact ⟨keeps.holds _ _ lasting_retiring lasts.1, keeps.known _ _ lasts.2⟩
  | retired request => exact ⟨keeps.holds _ _ lasting_retiring lasts.1, keeps.known _ _ lasts.2⟩
  | removed id => exact ⟨keeps.holds _ _ lasting_retiring lasts.1, keeps.known _ _ lasts.2⟩
  | forgotten request state => exact fun same => keeps.holds _ _ lasting_never (lasts same)

theorem Goes.lasts (goes : Goes issuer s s') (lasts : Fact.Lasts config issuer s fact) :
    Fact.Lasts config issuer s' fact := by
  refine lasts.congr goes.keeps fun allocation _ u member spawns _ => ?_
  exact (goes.threads u member).resolve_right fun fresh => by cases fresh.1.symm.trans spawns

theorem Goes.closed (goes : Goes issuer s s') (closed : ∀ allocation, Closed issuer s allocation → Vacant issuer s allocation)
    (allocation : AllocationId) (shut : Closed issuer s' allocation) : Vacant issuer s' allocation :=
  (goes.closes allocation shut).elim (fun before => goes.keeps.holds _ _ lasting_never (closed allocation before)) id

theorem Goes.fairs (goes : Goes issuer s s') (fair : ∀ u ∈ s.threads, u.Fair issuer s) :
    ∀ u ∈ s'.threads, u.Fair issuer s' := by
  intro u member
  exact (goes.threads u member).elim (fun old => goes.fair (fair u old)) And.right

theorem Point.spawns_relies {point : Point} (spawns : point.spawns = true) : point.relies = some Row.Dispatched := by
  cases point <;> first | rfl | cases spawns

/-- What is due lasts, once it has been said. -/
theorem Fact.Due.lasts (due : Fact.Due config issuer s fact) (goes : Goes issuer (s.tell fact) s')
    (dispatched : ∀ u ∈ s.threads, u.Fair issuer s)
    (spent : ∀ allocation, fact = .spawned allocation → ∀ u ∈ s'.threads, u.point.spawns = true → u.allocation ≠ allocation) :
    Fact.Lasts config issuer s' fact := by
  have keeps : Retains issuer s s' := (Retains.tell s fact).trans goes.keeps
  cases fact with
  | admitted id before => exact due.2
  | spawned id =>
    obtain ⟨_, u, member, spawns, rfl⟩ := due
    exact ⟨keeps.holds _ _ lasting_dispatched (dispatched u member _ (Point.spawns_relies spawns)), spent _ rfl⟩
  | fenced request => exact ⟨keeps.holds _ _ lasting_retiring due.1, keeps.known _ _ due.2.1⟩
  | retired request => exact ⟨keeps.holds _ _ lasting_retiring due.1, keeps.known _ _ due.2⟩
  | removed id => exact ⟨keeps.holds _ _ lasting_retiring due.2, keeps.known _ _ due.1⟩
  | forgotten request state => exact fun same => keeps.holds _ _ lasting_never (due.2 same)

/-! ### Every step and every run -/

theorem Lawful.goes (lawful : Lawful config issuer s) (goes : Goes issuer s s') (inv : Inv config issuer s') :
    Lawful config issuer s' := by
  refine ⟨inv, goes.keeps.clean lawful.clean, goes.fairs lawful.fair, goes.closed lawful.closed, ?_, ?_⟩
  · rw [goes.facts]
    exact fun fact member => goes.lasts (lawful.facts fact member)
  · rw [goes.facts]
    exact lawful.order

/-- A dispatch is of an allocation whose guardian has not been spawned. -/
theorem Lawful.dispatched {middle : Inner} {t : Thread} {row : Row} {record : Record} (lawful : Lawful config issuer s)
    (found : s.journal.records.lookup t.allocation = some row) (fresh : row.record.dispatched = false)
    (goes : Goes issuer s middle) (holds : Holds issuer middle Row.Dispatched t.allocation)
    (inv : Inv config issuer (middle.resume t (.spawning record))) :
    Lawful config issuer (middle.resume t (.spawning record)) := by
  have kept : Retains issuer middle (middle.resume t (.spawning record)) :=
    .authority rfl rfl rfl rfl fun _ _ known => known.congr rfl
  refine ⟨inv, kept.clean (goes.keeps.clean lawful.clean), fun u member => ?_, fun allocation shut => ?_,
    fun fact member => ?_, ?_⟩
  · rcases List.mem_cons.mp member with rfl | member
    · intro Q told
      cases told
      exact kept.holds _ _ lasting_dispatched holds
    · exact (goes.fairs lawful.fair u member).congr rfl rfl rfl
  · exact kept.holds _ _ lasting_never (goes.closed lawful.closed allocation shut)
  · have member : fact ∈ s.facts := goes.facts ▸ member
    refine Fact.Lasts.congr (goes.lasts (lawful.facts fact member)) kept fun allocation same u listed spawns own => ?_
    rcases List.mem_cons.mp listed with rfl | listed
    · subst same
      have dispatched := (lawful.facts _ member).1.row (own ▸ found)
      cases fresh.symm.trans dispatched
    · exact listed
  · show middle.facts.Pairwise Fact.Orderly
    rw [goes.facts]
    exact lawful.order

theorem Lawful.told (lawful : Lawful config issuer s) (due : Fact.Due config issuer s fact)
    (goes : Goes issuer (s.tell fact) s') (inv : Inv config issuer s')
    (spent : ∀ allocation, fact = .spawned allocation → ∀ u ∈ s'.threads, u.point.spawns = true → u.allocation ≠ allocation) :
    Lawful config issuer s' := by
  have fair : ∀ u ∈ (s.tell fact).threads, u.Fair issuer (s.tell fact) :=
    fun u member => (lawful.fair u member).congr rfl rfl rfl
  have closed : ∀ allocation, Closed issuer (s.tell fact) allocation → Vacant issuer (s.tell fact) allocation :=
    fun allocation shut => (lawful.closed allocation shut).imp rfl rfl fun known => known.congr rfl
  refine ⟨inv, goes.keeps.clean lawful.clean, goes.fairs fair, goes.closed closed, ?_, ?_⟩
  · rw [goes.facts]
    intro other member
    rcases List.mem_cons.mp member with rfl | member
    · exact due.lasts goes lawful.fair spent
    · exact goes.lasts ((lawful.facts other member).congr (.tell s fact) fun _ _ _ listed _ _ => listed)
  · rw [goes.facts]
    exact List.pairwise_cons.mpr ⟨fun other member => due.orderly lawful.inv.journal (lawful.facts other member), lawful.order⟩

theorem step_lawful (s : Inner) (event : Event) (lawful : Lawful config issuer s) (words : event.Words issuer) :
    Lawful config issuer (s.step config texts issuer event) := by
  have inv := @step_inv config texts issuer s event lawful.inv words
  rcases step_steps event lawful.inv lawful.clean lawful.fair words with
    goes | ⟨t, row, record, middle, found, fresh, goes, holds, resumed⟩ | ⟨fact, due, goes, spent⟩
  · exact lawful.goes goes inv
  · rw [resumed] at inv ⊢
    exact lawful.dispatched found fresh goes holds inv
  · exact lawful.told due goes inv spent

theorem provision_lawful {epoch : ℤ} (made : provision config texts epoch = .ok s) : Lawful config issuer s := by
  have inv : Inv config issuer s := provision_inv made
  obtain ⟨_, made⟩ := seq_ok.mp made
  have fresh : ∀ authority : Option AuthorityFile, (∀ file ∈ authority, file.ledger.entries = [] ∧ file.ledger.through = 0) →
      s = provisioned epoch authority → Lawful config issuer s := by
    intro authority empty same
    subst same
    refine ⟨inv, fun _ _ => rfl, fun u member => ?_, ?_, fun fact member => ?_, .nil⟩
    · cases member
    · rintro allocation ⟨file, has, closed⟩
      obtain ⟨made, found, rfl⟩ := Option.map_eq_some_iff.mp (Option.mem_def.mp has)
      obtain ⟨entries, through⟩ := empty made (Option.mem_def.mpr found)
      obtain ⟨n, _, _, top⟩ : Past issuer .closed allocation made := closed.elim id id
      have stage : made.ledger.stage n = .unissued := by
        rw [Authority.stage_absent, through]
        · exact if_neg (by omega)
        · rw [entries]
          exact fun e absent => absurd absent List.not_mem_nil
      rw [stage] at top
      exact absurd top (by decide)
    · cases member
  split at made
  · obtain ⟨file, given, made⟩ := bind_ok.mp made
    refine fresh (some file) (fun other same => ?_) (pure_ok.mp made).symm
    cases same
    obtain ⟨ledger, new, saved⟩ := bind_ok.mp given
    obtain rfl := Launch.save_eq saved
    obtain ⟨_, new⟩ := seq_ok.mp (mapError_ok.mp new)
    cases pure_ok.mp new
    exact ⟨rfl, rfl⟩
  · refine fresh none (fun other same => ?_) (pure_ok.mp made).symm
    cases same

theorem Reached.lawful (reached : Reached config texts issuer s) : Lawful config issuer s := by
  obtain ⟨epoch, start, events, made, words, rfl⟩ := reached
  exact run_guarded step_lawful (provision_lawful made) (along_words words)

end
end HudsonSandbox.Inner
