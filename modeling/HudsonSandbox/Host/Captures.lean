import HudsonSandbox.Host.Record
import HudsonSandbox.Library.Maps
import HudsonSandbox.Library.Run
import HudsonSandbox.Protocol.FileDownloads

/-!
# Capture tickets

A host keeps a ticket for every file capture that it hands out: bounded in number, gone when its time is up,
released once. Tickets that expired are dropped only when the registry is next used. A ledger that forgets
nothing says what is outstanding; the registry and the ledger agree on every ticket that has not expired.
-/

namespace HudsonSandbox.Host.Captures
open Checked FileDownloads GuestWire

def MAX_DOWNLOADS : ℕ := 64
def MAX_ALLOCATION_DOWNLOADS : ℕ := 8
/-- In milliseconds. -/
def TTL : ℕ := 60000

def missing : Status := ⟨.notFound, "file capture unavailable or expired"⟩
def invalid : Status := ⟨.invalidArgument, "invalid file read request"⟩
def unavailable : Status := ⟨.unavailable, "file read unavailable"⟩
def full : Status := ⟨.resourceExhausted, "file capture tickets full"⟩
def changed : Status := ⟨.failedPrecondition, "file capture ownership or descriptor changed"⟩

/-- Addition of signed words that stays within them. -/
def saturatingAdd (a b : ℤ) : ℤ := max (-2 ^ 63) (min (a + b) (2 ^ 63 - 1))

structure Ticket where
  scope : ReadScope
  context : GuestModel.Context
  path : String
  expires : ℕ
  expiresUnixMs : ℤ
  handle : Option FileDownloadHandle
  released : Bool
  deriving DecidableEq

abbrev Registry := Map Ticket

namespace Registry

def prune (self : Registry) (now : ℕ) : Registry := Maps.filterValues (fun t => now < t.expires) self

/-- Pending captures and unreleased handles remain consumers until they expire. -/
def pendingAllocation (self : Registry) (allocation : AllocationId) (now : ℕ) : Bool × Registry :=
  ((self.prune now).entries.any fun entry => entry.2.scope.allocationId = allocation ∧ entry.2.released = false,
    self.prune now)

def contains (self : Registry) (id : OperationId) : Bool := (self.lookup id).isSome

/-- How many tickets an allocation holds. -/
def held (self : Registry) (allocation : AllocationId) : ℕ :=
  Maps.total (fun t => if t.scope.allocationId = allocation then 1 else 0) self

def reservable (scope : ReadScope) (context : GuestModel.Context) (path : String) : Except Status Unit := do
  scope.validate.mapError fun _ => invalid
  (Files.validatePath path.toList).mapError fun _ => invalid
  ensure (context.allocationId = scope.allocationId ∧ context.generation = scope.generation ∧ context.bootId ≠ "" ∧
    context.bootId.utf8ByteSize ≤ 64) invalid

def ticket (scope : ReadScope) (context : GuestModel.Context) (path : String) (wall : ℤ) (now : ℕ) : Ticket :=
  { scope, context, path, expires := now + TTL, expiresUnixMs := saturatingAdd wall TTL, handle := none,
    released := false }

/-- Reserve a ticket under an identity that was generated for it. -/
def reserve (self : Registry) (scope : ReadScope) (context : GuestModel.Context) (path : String) (wall : ℤ)
    (now : ℕ) (id : OperationId) : Except Status OperationId × Registry :=
  match reservable scope context path with
  | .error status => (.error status, self)
  | .ok () =>
    if MAX_DOWNLOADS ≤ (self.prune now).entries.length ∨
        MAX_ALLOCATION_DOWNLOADS ≤ (self.prune now).held scope.allocationId then
      (.error full, self.prune now)
    else (.ok id, (self.prune now).insert id (ticket scope context path wall now))

/-- The handle that a capture gets under its ticket. -/
def captured (self : Registry) (id : OperationId) (capture : FileCapture) : Except Status FileDownloadHandle := do
  let t ← okOr (self.lookup id) missing
  capture.validate.mapError fun _ => unavailable
  ensure (capture.path = t.path ∧ t.handle = none) unavailable
  pure { id := id.toString, context := some (.fromModel t.context), capture := some capture,
         expiresUnixMs := t.expiresUnixMs }

def finish (self : Registry) (id : OperationId) (capture : FileCapture) (now : ℕ) :
    Except Status FileDownloadHandle × Registry :=
  match (self.prune now).captured id capture with
  | .error status => (.error status, self.prune now)
  | .ok h => (.ok h, Maps.modify id (fun t => { t with handle := some h }) (self.prune now))

/-- The ticket that a handle names. -/
def named (self : Registry) (handle : FileDownloadHandle) : Except Status (OperationId × Ticket) := do
  let id ← (parse handle.id).mapError fun _ => invalid
  let t ← okOr (self.lookup id) missing
  pure (id, t)

def current (self : Registry) (scope : ReadScope) (handle : FileDownloadHandle) : Except Status Bool := do
  let (_, t) ← self.named handle
  ensure (t.scope = scope ∧ t.handle = some handle) changed
  pure t.released

/-- True means a matching release was acknowledged. No expiry or missing entry authorizes capture. -/
def validate (self : Registry) (scope : ReadScope) (handle : FileDownloadHandle) (now : ℕ) :
    Except Status Bool × Registry :=
  match FileDownloads.handle handle scope with
  | .error _ => (.error invalid, self)
  | .ok () => ((self.prune now).current scope handle, self.prune now)

def released (self : Registry) (scope : ReadScope) (handle : FileDownloadHandle) (now : ℕ) :
    Except Status Unit × Registry :=
  match self.validate scope handle now with
  | (.error status, self) => (.error status, self)
  | (.ok _, self) =>
    match self.named handle with
    | .error status => (.error status, self)
    | .ok (id, _) => (.ok (), Maps.modify id (fun t => { t with released := true }) self)

end Registry

/-! ### What each operation does -/

section Operations
variable {self : Registry} {now : ℕ} {id : OperationId} {t : Ticket} {scope : ReadScope} {handle : FileDownloadHandle}

theorem prune_lookup : (self.prune now).lookup id = some t ↔ self.lookup id = some t ∧ now < t.expires := by
  unfold Registry.prune
  rw [Maps.lookup_filterValues, decide_eq_true_iff]

theorem prune_sublist : (self.prune now).entries.Sublist self.entries := List.filter_sublist

theorem pendingAllocation_iff {allocation : AllocationId} : (self.pendingAllocation allocation now).1 = true ↔
    ∃ id t, self.lookup id = some t ∧ t.scope.allocationId = allocation ∧ t.released = false ∧ now < t.expires := by
  have found : ∀ {id : OperationId} {t : Ticket}, ⟨id, t⟩ ∈ (self.prune now).entries ↔ self.lookup id = some t ∧ now < t.expires := by
    intro id t
    rw [← prune_lookup]
    exact AList.mem_lookup_iff.symm
  show ((self.prune now).entries.any _) = true ↔ _
  rw [List.any_eq_true]
  constructor
  · intro some_
    obtain ⟨entry, member, same⟩ := some_
    obtain ⟨owned, open_⟩ := of_decide_eq_true same
    obtain ⟨held, fresh⟩ := found.mp member
    exact ⟨entry.1, entry.2, held, owned, open_, fresh⟩
  · intro some_
    obtain ⟨id, t, held, owned, open_, fresh⟩ := some_
    exact ⟨⟨id, t⟩, found.mpr ⟨held, fresh⟩, decide_eq_true ⟨owned, open_⟩⟩

theorem reserve_cases {context : GuestModel.Context} {path : String} {wall : ℤ} :
    (∃ status r, self.reserve scope context path wall now id = (.error status, r) ∧ (r = self ∨ r = self.prune now)) ∨
      ((self.prune now).entries.length < MAX_DOWNLOADS ∧
        (self.prune now).held scope.allocationId < MAX_ALLOCATION_DOWNLOADS ∧
        self.reserve scope context path wall now id =
          (.ok id, (self.prune now).insert id (Registry.ticket scope context path wall now))) := by
  unfold Registry.reserve
  cases Registry.reservable scope context path with
  | error status => exact .inl ⟨status, self, rfl, .inl rfl⟩
  | ok _ =>
    dsimp only
    by_cases room : MAX_DOWNLOADS ≤ (self.prune now).entries.length ∨
      MAX_ALLOCATION_DOWNLOADS ≤ (self.prune now).held scope.allocationId
    · rw [if_pos room]
      exact .inl ⟨full, self.prune now, rfl, .inr rfl⟩
    · rw [if_neg room]
      obtain ⟨few, fewer⟩ := not_or.mp room
      exact .inr ⟨Nat.lt_of_not_le few, Nat.lt_of_not_le fewer, rfl⟩

/-- A capture is taken by its ticket only if the ticket has none yet. -/
theorem finish_cases {capture : FileCapture} :
    (∃ status, self.finish id capture now = (.error status, self.prune now)) ∨
      ∃ t h, (self.prune now).lookup id = some t ∧ t.handle = none ∧ h.id = id.toString ∧
        self.finish id capture now = (.ok h, Maps.modify id (fun t => { t with handle := some h }) (self.prune now)) := by
  unfold Registry.finish
  cases taken : (self.prune now).captured id capture with
  | error status => exact .inl ⟨status, rfl⟩
  | ok h =>
    obtain ⟨t, found, taken⟩ := bind_ok.mp taken
    obtain ⟨_, taken⟩ := seq_ok.mp taken
    obtain ⟨free, same⟩ := seq_ok.mp taken
    cases pure_ok.mp same
    exact .inr ⟨t, _, okOr_ok.mp found, (ensure_ok.mp free).2, rfl, rfl⟩

theorem named_ok {found : OperationId × Ticket} : self.named handle = .ok found ↔
    handle.id = found.1.toString ∧ found.1.Minted ∧ self.lookup found.1 = some found.2 := by
  constructor
  · intro read
    obtain ⟨id, parsed, read⟩ := bind_ok.mp read
    obtain ⟨t, held, same⟩ := bind_ok.mp read
    cases pure_ok.mp same
    obtain ⟨text, minted⟩ := parse_ok.mp (mapError_ok.mp parsed)
    exact ⟨text, minted, okOr_ok.mp held⟩
  · intro read
    obtain ⟨text, minted, held⟩ := read
    apply bind_ok.mpr
    refine ⟨found.1, mapError_ok.mpr (parse_ok.mpr ⟨text, minted⟩), bind_ok.mpr ⟨found.2, okOr_ok.mpr held, rfl⟩⟩

theorem validate_registry : (self.validate scope handle now).2 = self ∨ (self.validate scope handle now).2 = self.prune now := by
  unfold Registry.validate
  cases FileDownloads.handle handle scope with
  | error _ => exact .inl rfl
  | ok _ => exact .inr rfl

/-- Validation succeeds for the exact scope and handle of a ticket that has not expired. -/
theorem validate_ok {b : Bool} : (self.validate scope handle now).1 = .ok b ↔
    FileDownloads.handle handle scope = .ok () ∧ ∃ id t, self.named handle = .ok (id, t) ∧ now < t.expires ∧
      t.scope = scope ∧ t.handle = some handle ∧ t.released = b := by
  unfold Registry.validate
  cases FileDownloads.handle handle scope with
  | error _ =>
    constructor
    · intro same
      cases same
    · intro same
      cases same.1
  | ok _ =>
    constructor
    · intro read
      obtain ⟨found, held, read⟩ := bind_ok.mp read
      obtain ⟨exact_, same⟩ := seq_ok.mp read
      obtain ⟨text, minted, held⟩ := named_ok.mp held
      obtain ⟨held, fresh⟩ := prune_lookup.mp held
      obtain ⟨owned, described⟩ := ensure_ok.mp exact_
      exact ⟨rfl, found.1, found.2, named_ok.mpr ⟨text, minted, held⟩, fresh, owned, described, pure_ok.mp same⟩
    · intro read
      obtain ⟨_, id, t, held, fresh, owned, described, same⟩ := read
      obtain ⟨text, minted, held⟩ := named_ok.mp held
      apply bind_ok.mpr
      refine ⟨(id, t), named_ok.mpr ⟨text, minted, prune_lookup.mpr ⟨held, fresh⟩⟩, seq_ok.mpr ⟨?_, pure_ok.mpr same⟩⟩
      exact ensure_ok.mpr ⟨owned, described⟩

theorem validate_missing (valid : FileDownloads.handle handle scope = .ok ()) (text : handle.id = id.toString)
    (minted : id.Minted) (gone : (self.prune now).lookup id = none) :
    (self.validate scope handle now).1 = .error missing := by
  have absent : (self.prune now).named handle = .error missing := by
    unfold Registry.named
    rw [parse_ok.mpr ⟨text, minted⟩]
    show (okOr ((self.prune now).lookup id) missing >>= fun t => pure (id, t)) = _
    rw [gone]
    rfl
  unfold Registry.validate Registry.current
  rw [valid, absent]
  rfl

theorem released_cases : (∃ status r, self.released scope handle now = (.error status, r) ∧ (r = self ∨ r = self.prune now)) ∨
    ∃ id t, (self.validate scope handle now).1 = .ok t.released ∧ self.named handle = .ok (id, t) ∧ now < t.expires ∧
      t.scope = scope ∧ t.handle = some handle ∧
      self.released scope handle now = (.ok (), Maps.modify id (fun t => { t with released := true }) (self.prune now)) := by
  have kept := @validate_registry self now scope handle
  cases answer : self.validate scope handle now with
  | mk first second =>
    rw [answer] at kept
    cases first with
    | error status =>
      have same : self.released scope handle now = (.error status, second) := by
        unfold Registry.released
        rw [answer]
      exact .inl ⟨status, second, same, kept⟩
    | ok b =>
      have valid : (self.validate scope handle now).1 = .ok b := by rw [answer]
      obtain ⟨owned, id, t, held, fresh, exact_, described, same⟩ := validate_ok.mp valid
      obtain ⟨text, minted, found⟩ := named_ok.mp held
      have pruned : second = self.prune now := by
        have this : (self.validate scope handle now).2 = self.prune now := by
          unfold Registry.validate
          rw [owned]
        rw [answer] at this
        exact this
      have again : (self.prune now).named handle = .ok (id, t) :=
        named_ok.mpr ⟨text, minted, prune_lookup.mpr ⟨found, fresh⟩⟩
      apply Or.inr
      refine ⟨id, t, ?_, held, fresh, exact_, described, ?_⟩
      · rw [same]
      · unfold Registry.released
        rw [answer, pruned]
        dsimp only
        rw [again]

end Operations

/-! ### The host over time -/

/-- The ledger holds every ticket that was ever reserved; nothing reads it. -/
structure System where
  clock : ℕ := 0
  registry : Registry := ∅
  ledger : Map Ticket := ∅

inductive Event where
  | advance (d : ℕ)
  | prune
  | pending (allocation : AllocationId)
  | reserve (scope : ReadScope) (context : GuestModel.Context) (path : String) (wall : ℤ) (id : OperationId)
  | finish (id : OperationId) (capture : FileCapture)
  | validate (scope : ReadScope) (handle : FileDownloadHandle)
  | released (scope : ReadScope) (handle : FileDownloadHandle)

namespace System

def reserve (s : System) (id : OperationId) (scope : ReadScope) (context : GuestModel.Context) (path : String)
    (wall : ℤ) : System :=
  match s.registry.reserve scope context path wall s.clock id with
  | (.error _, registry) => { s with registry }
  | (.ok id, registry) =>
    { s with registry, ledger := s.ledger.insert id (Registry.ticket scope context path wall s.clock) }

def finish (s : System) (id : OperationId) (capture : FileCapture) : System :=
  match s.registry.finish id capture s.clock with
  | (.error _, registry) => { s with registry }
  | (.ok h, registry) => { s with registry, ledger := Maps.modify id (fun t => { t with handle := some h }) s.ledger }

def released (s : System) (scope : ReadScope) (handle : FileDownloadHandle) : System :=
  match s.registry.released scope handle s.clock, parse handle.id with
  | (.ok (), registry), .ok id =>
    { s with registry, ledger := Maps.modify id (fun t => { t with released := true }) s.ledger }
  | (_, registry), _ => { s with registry }

end System

/-- Every operation reads the clock under the registry's lock. Identities are generated: one that was given out
before does not come again. -/
def step (s : System) : Event → System
  | .advance d => { s with clock := s.clock + d }
  | .prune => { s with registry := s.registry.prune s.clock }
  | .pending allocation => { s with registry := (s.registry.pendingAllocation allocation s.clock).2 }
  | .reserve scope context path wall id => if id ∈ s.ledger then s else s.reserve id scope context path wall
  | .finish id capture => s.finish id capture
  | .validate scope handle => { s with registry := (s.registry.validate scope handle s.clock).2 }
  | .released scope handle => s.released scope handle

/-- The handle that an event set for a ticket. -/
def finished (id : OperationId) (s : System) : Event → Option FileDownloadHandle
  | .finish other capture => if other = id then (s.registry.finish other capture s.clock).1.toOption else none
  | _ => none

/-- The registry holds nothing but what the ledger has, and all of it that has not expired. -/
structure Tracks (clock : ℕ) (registry : Registry) (ledger : Map Ticket) : Prop where
  known : ∀ id t, registry.lookup id = some t → ledger.lookup id = some t
  fresh : ∀ id t, ledger.lookup id = some t → clock < t.expires → registry.lookup id = some t

structure Bounded (registry : Registry) : Prop where
  small : registry.entries.length ≤ MAX_DOWNLOADS
  each : ∀ allocation, registry.held allocation ≤ MAX_ALLOCATION_DOWNLOADS

structure Inv (s : System) : Prop where
  bounded : Bounded s.registry
  tracks : Tracks s.clock s.registry s.ledger

/-! ### One step -/

section Steps
variable {clock now : ℕ} {registry : Registry} {ledger : Map Ticket} {id : OperationId}

theorem Bounded.sublist {fewer : Registry} (bounded : Bounded registry)
    (sublist : fewer.entries.Sublist registry.entries) : Bounded fewer := by
  refine ⟨sublist.length_le.trans bounded.small, ?_⟩
  intro allocation
  exact (Maps.total_sublist _ sublist).trans (bounded.each allocation)

theorem Bounded.modify {change : Ticket → Ticket} (bounded : Bounded registry) (same : ∀ t, (change t).scope = t.scope) :
    Bounded (Maps.modify id change registry) := by
  constructor
  · have count : Maps.total (fun _ => 1) (Maps.modify id change registry) = Maps.total (fun _ => 1) registry :=
      Maps.total_modify _ fun _ => rfl
    rw [← Maps.total_one, count, Maps.total_one]
    exact bounded.small
  · intro allocation
    refine le_trans (le_of_eq ?_) (bounded.each allocation)
    apply Maps.total_modify
    intro t
    rw [same]

theorem Bounded.insert {t : Ticket} (bounded : Bounded registry) (absent : id ∉ registry)
    (few : registry.entries.length < MAX_DOWNLOADS) (fewer : registry.held t.scope.allocationId < MAX_ALLOCATION_DOWNLOADS) :
    Bounded (AList.insert id t registry) := by
  constructor
  · rw [← Maps.total_one, Maps.total_insert_absent _ absent, Maps.total_one]
    omega
  · intro allocation
    have others := bounded.each allocation
    unfold Registry.held at others fewer ⊢
    rw [Maps.total_insert_absent _ absent]
    by_cases same : t.scope.allocationId = allocation
    · rw [if_pos same]
      rw [same] at fewer
      omega
    · rw [if_neg same]
      omega

theorem Tracks.prune (tracks : Tracks clock registry ledger) : Tracks clock (registry.prune clock) ledger where
  known id t found := tracks.known id t (prune_lookup.mp found).1
  fresh id t found open_ := prune_lookup.mpr ⟨tracks.fresh id t found open_, open_⟩

theorem Tracks.later (tracks : Tracks clock registry ledger) (d : ℕ) : Tracks (clock + d) registry ledger where
  known := tracks.known
  fresh id t found open_ := tracks.fresh id t found (by omega)

theorem Tracks.insert {t : Ticket} (tracks : Tracks clock registry ledger) :
    Tracks clock (AList.insert id t registry) (AList.insert id t ledger) := by
  constructor
  · intro other t' found
    by_cases same : other = id
    · subst same
      rw [AList.lookup_insert] at found ⊢
      exact found
    · rw [AList.lookup_insert_ne same] at found ⊢
      exact tracks.known other t' found
  · intro other t' found open_
    by_cases same : other = id
    · subst same
      rw [AList.lookup_insert] at found ⊢
      exact found
    · rw [AList.lookup_insert_ne same] at found ⊢
      exact tracks.fresh other t' found open_

theorem Tracks.modify {change : Ticket → Ticket} (tracks : Tracks clock registry ledger)
    (same : ∀ t, (change t).expires = t.expires) :
    Tracks clock (Maps.modify id change registry) (Maps.modify id change ledger) := by
  constructor
  · intro other t found
    rcases Maps.lookup_modify_some found with this | this
    · obtain ⟨key, old, held, changed⟩ := this
      rw [key, Maps.lookup_modify, tracks.known id old held, Option.map_some, changed]
    · obtain ⟨key, held⟩ := this
      rw [Maps.lookup_modify_ne _ key]
      exact tracks.known other t held
  · intro other t found open_
    rcases Maps.lookup_modify_some found with this | this
    · obtain ⟨key, old, held, changed⟩ := this
      have before : clock < old.expires := by
        rw [← same, changed]
        exact open_
      rw [key, Maps.lookup_modify, tracks.fresh id old held before, Option.map_some, changed]
    · obtain ⟨key, held⟩ := this
      rw [Maps.lookup_modify_ne _ key]
      exact tracks.fresh other t held open_

/-- A registry that was at most pruned keeps the invariant. -/
theorem Inv.pruned {s : System} (inv : Inv s) {r : Registry} (kept : r = s.registry ∨ r = s.registry.prune s.clock) :
    Inv { s with registry := r } := by
  cases kept with
  | inl same =>
    rw [same]
    exact inv
  | inr same =>
    rw [same]
    exact ⟨inv.bounded.sublist prune_sublist, inv.tracks.prune⟩

theorem Inv.modify {s : System} (inv : Inv s) {change : Ticket → Ticket} (scope : ∀ t, (change t).scope = t.scope)
    (expires : ∀ t, (change t).expires = t.expires) :
    Inv { s with registry := Maps.modify id change (s.registry.prune s.clock), ledger := Maps.modify id change s.ledger } where
  bounded := (inv.bounded.sublist prune_sublist).modify scope
  tracks := inv.tracks.prune.modify expires

theorem reserve_inv {s : System} (inv : Inv s) (unissued : id ∉ s.ledger) (scope : ReadScope)
    (context : GuestModel.Context) (path : String) (wall : ℤ) : Inv (s.reserve id scope context path wall) := by
  unfold System.reserve
  rcases @reserve_cases s.registry s.clock id scope context path wall with refused | reserved
  · obtain ⟨status, r, same, kept⟩ := refused
    rw [same]
    exact inv.pruned kept
  · obtain ⟨few, fewer, same⟩ := reserved
    rw [same]
    have absent : id ∉ s.registry.prune s.clock := by
      intro member
      obtain ⟨t, found⟩ := Option.isSome_iff_exists.mp (AList.lookup_isSome.mpr member)
      have known := inv.tracks.known _ t (prune_lookup.mp found).1
      exact unissued (AList.lookup_isSome.mp (Option.isSome_iff_exists.mpr ⟨t, known⟩))
    exact ⟨(inv.bounded.sublist prune_sublist).insert absent few fewer, inv.tracks.prune.insert⟩

/-- One step keeps the limits and the agreement of registry and ledger. -/
theorem step_inv (s : System) (event : Event) (inv : Inv s) :
    Inv (step s event) := by
  cases event with
  | advance d => exact ⟨inv.bounded, inv.tracks.later d⟩
  | prune => exact inv.pruned (.inr rfl)
  | pending allocation => exact inv.pruned (.inr rfl)
  | reserve scope context path wall id =>
    show Inv (if id ∈ s.ledger then s else s.reserve id scope context path wall)
    by_cases issued : id ∈ s.ledger
    · rw [if_pos issued]
      exact inv
    · rw [if_neg issued]
      exact reserve_inv inv issued scope context path wall
  | finish id capture =>
    show Inv (s.finish id capture)
    unfold System.finish
    rcases @finish_cases s.registry s.clock id capture with refused | taken
    · obtain ⟨status, same⟩ := refused
      rw [same]
      exact inv.pruned (.inr rfl)
    · obtain ⟨t, h, _, _, _, same⟩ := taken
      rw [same]
      exact inv.modify (fun _ => rfl) fun _ => rfl
  | validate scope handle => exact inv.pruned validate_registry
  | released scope handle =>
    show Inv (s.released scope handle)
    unfold System.released
    rcases @released_cases s.registry s.clock scope handle with refused | done
    · obtain ⟨status, r, same, kept⟩ := refused
      rw [same]
      exact inv.pruned kept
    · obtain ⟨id, t, _, named, _, _, _, same⟩ := done
      obtain ⟨text, minted, _⟩ := named_ok.mp named
      rw [same, parse_ok.mpr ⟨text, minted⟩]
      exact inv.modify (fun _ => rfl) fun _ => rfl

end Steps

/-! ### Tickets only move forward -/

/-- A ticket keeps what it was reserved for, the handle it has, and its release. -/
structure Onward (t t' : Ticket) : Prop where
  scope : t'.scope = t.scope
  expires : t'.expires = t.expires
  handle : ∀ h, t.handle = some h → t'.handle = some h
  released : t.released = true → t'.released = true

theorem Onward.rfl {t : Ticket} : Onward t t := ⟨Eq.refl _, Eq.refl _, fun _ => id, id⟩

theorem Onward.trans {t t' t'' : Ticket} (first : Onward t t') (second : Onward t' t'') : Onward t t'' where
  scope := second.scope.trans first.scope
  expires := second.expires.trans first.expires
  handle h held := second.handle h (first.handle h held)
  released done := second.released (first.released done)

/-- Every ticket of one ledger is in another, as it was or further on. -/
def Grows (ledger ledger' : Map Ticket) : Prop :=
  ∀ id t, ledger.lookup id = some t → ∃ t', ledger'.lookup id = some t' ∧ Onward t t'

section Forward
variable {ledger : Map Ticket} {id : OperationId}

theorem Grows.rfl : Grows ledger ledger := fun _ t found => ⟨t, found, .rfl⟩

theorem Grows.modify {change : Ticket → Ticket} (onward : ∀ t, ledger.lookup id = some t → Onward t (change t)) :
    Grows ledger (Maps.modify id change ledger) := by
  intro other t found
  by_cases same : other = id
  · subst same
    refine ⟨change t, ?_, onward t found⟩
    rw [Maps.lookup_modify, found, Option.map_some]
  · refine ⟨t, ?_, .rfl⟩
    rw [Maps.lookup_modify_ne _ same, found]

theorem step_grows (s : System) (event : Event) (inv : Inv s) :
    Grows s.ledger (step s event).ledger := by
  cases event with
  | advance d => exact .rfl
  | prune => exact .rfl
  | pending allocation => exact .rfl
  | validate scope handle => exact .rfl
  | reserve scope context path wall id =>
    show Grows s.ledger (if id ∈ s.ledger then s else s.reserve id scope context path wall).ledger
    by_cases issued : id ∈ s.ledger
    · rw [if_pos issued]
      exact .rfl
    rw [if_neg issued]
    unfold System.reserve
    rcases @reserve_cases s.registry s.clock id scope context path wall with refused | reserved
    · obtain ⟨status, r, same, _⟩ := refused
      rw [same]
      exact .rfl
    · obtain ⟨_, _, same⟩ := reserved
      rw [same]
      intro other t found
      have different : other ≠ id := by
        intro same
        rw [same] at found
        exact issued (AList.lookup_isSome.mp (Option.isSome_iff_exists.mpr ⟨t, found⟩))
      refine ⟨t, ?_, .rfl⟩
      show (AList.insert _ _ s.ledger).lookup other = some t
      rw [AList.lookup_insert_ne different, found]
  | finish id capture =>
    show Grows s.ledger (s.finish id capture).ledger
    unfold System.finish
    rcases @finish_cases s.registry s.clock id capture with refused | taken
    · obtain ⟨status, same⟩ := refused
      rw [same]
      exact .rfl
    · obtain ⟨t, h, held, free, _, same⟩ := taken
      rw [same]
      apply Grows.modify
      intro t' found
      have known := inv.tracks.known id t (prune_lookup.mp held).1
      rw [found] at known
      cases known
      refine ⟨Eq.refl _, Eq.refl _, ?_, fun done => done⟩
      intro other had
      rw [free] at had
      cases had
  | released scope handle =>
    show Grows s.ledger (s.released scope handle).ledger
    unfold System.released
    rcases @released_cases s.registry s.clock scope handle with refused | done
    · obtain ⟨status, r, same, _⟩ := refused
      rw [same]
      exact .rfl
    · obtain ⟨id, t, _, named, _, _, _, same⟩ := done
      obtain ⟨text, minted, _⟩ := named_ok.mp named
      rw [same, parse_ok.mpr ⟨text, minted⟩]
      apply Grows.modify
      intro t' _
      exact ⟨Eq.refl _, Eq.refl _, fun _ had => had, fun _ => Eq.refl _⟩

theorem run_grows {s : System} (inv : Inv s) (events : List Event) :
    Grows s.ledger (Run.run step s events).ledger := by
  induction events generalizing s with
  | nil => exact .rfl
  | cons event rest ih =>
    intro id t found
    obtain ⟨t', next, onward⟩ := step_grows s event inv id t found
    obtain ⟨t'', last, more⟩ := ih (step_inv s event inv) id t' next
    exact ⟨t'', last, onward.trans more⟩

theorem finished_some {s : System} {event : Event} {h : FileDownloadHandle} (answer : finished id s event = some h) :
    ∃ capture, event = .finish id capture ∧ (s.registry.finish id capture s.clock).1 = .ok h := by
  cases event with
  | finish other capture =>
    change (if other = id then (s.registry.finish other capture s.clock).1.toOption else none) = some h at answer
    by_cases same : other = id
    · rw [if_pos same] at answer
      subst same
      cases taken : (s.registry.finish other capture s.clock).1 with
      | error status =>
        rw [taken] at answer
        cases answer
      | ok h' =>
        rw [taken] at answer
        cases answer
        exact ⟨capture, Eq.refl _, taken⟩
    · rw [if_neg same] at answer
      cases answer
  | _ => cases answer

/-- The ticket has a handle. -/
def Handled (id : OperationId) (s : System) : Prop := ∃ t h, s.ledger.lookup id = some t ∧ t.handle = some h

theorem finish_marks (id : OperationId) :
    Run.Marks step Inv (finished id) (Handled id) where
  keeps s event inv := step_inv s event inv
  lasts s event inv handled := by
    obtain ⟨t, h, found, had⟩ := handled
    obtain ⟨t', found', onward⟩ := step_grows s event inv id t found
    exact ⟨t', h, found', onward.handle h had⟩
  fresh s event h inv answer handled := by
    obtain ⟨capture, _, taken⟩ := finished_some answer
    obtain ⟨t', h', known', had⟩ := handled
    rcases @finish_cases s.registry s.clock id capture with refused | set_
    · obtain ⟨status, same⟩ := refused
      rw [same] at taken
      cases taken
    · obtain ⟨t, _, held, free, _, _⟩ := set_
      have known := inv.tracks.known id t (prune_lookup.mp held).1
      rw [known'] at known
      cases known
      rw [free] at had
      cases had
  leaves s event h inv answer := by
    obtain ⟨capture, same, taken⟩ := finished_some answer
    subst same
    rcases @finish_cases s.registry s.clock id capture with refused | set_
    · obtain ⟨status, same⟩ := refused
      rw [same] at taken
      cases taken
    · obtain ⟨t, h', held, _, _, same⟩ := set_
      have known := inv.tracks.known id t (prune_lookup.mp held).1
      refine ⟨{ t with handle := some h' }, h', ?_, Eq.refl _⟩
      show (s.finish id capture).ledger.lookup id = _
      unfold System.finish
      rw [same]
      show (Maps.modify id _ s.ledger).lookup id = _
      rw [Maps.lookup_modify, known]
      exact Eq.refl _

theorem start_inv : Inv {} where
  bounded := ⟨Nat.zero_le _, fun _ => Nat.zero_le _⟩
  tracks := ⟨fun _ _ found => found, fun _ _ found _ => found⟩

/-- An allocation is pending exactly while the ledger has a ticket of it that is neither expired nor released. -/
theorem pending_exact {s : System} (inv : Inv s) (allocation : AllocationId) :
    (s.registry.pendingAllocation allocation s.clock).1 = true ↔
      ∃ id t, s.ledger.lookup id = some t ∧ t.scope.allocationId = allocation ∧ t.released = false ∧ s.clock < t.expires := by
  rw [pendingAllocation_iff]
  constructor
  · intro some_
    obtain ⟨id, t, found, rest⟩ := some_
    exact ⟨id, t, inv.tracks.known id t found, rest⟩
  · intro some_
    obtain ⟨id, t, found, owned, unreleased, fresh⟩ := some_
    exact ⟨id, t, inv.tracks.fresh id t found fresh, owned, unreleased, fresh⟩

/-- What validation of a handle says once its release was recorded. -/
theorem validate_after {s : System} (inv : Inv s) {t : Ticket} {scope : ReadScope} {handle : FileDownloadHandle}
    (valid : FileDownloads.handle handle scope = .ok ()) (text : handle.id = id.toString) (minted : id.Minted)
    (found : s.ledger.lookup id = some t) (owned : t.scope = scope) (described : t.handle = some handle)
    (released : t.released = true) :
    (s.registry.validate scope handle s.clock).1 = if s.clock < t.expires then .ok true else .error missing := by
  by_cases fresh : s.clock < t.expires
  · rw [if_pos fresh]
    have held := inv.tracks.fresh id t found fresh
    exact validate_ok.mpr ⟨valid, id, t, named_ok.mpr ⟨text, minted, held⟩, fresh, owned, described, released⟩
  · rw [if_neg fresh]
    apply validate_missing valid text minted
    cases gone : (s.registry.prune s.clock).lookup id with
    | none => exact Eq.refl _
    | some t' =>
      obtain ⟨held, open_⟩ := prune_lookup.mp gone
      have known := inv.tracks.known id t' held
      rw [found] at known
      cases known
      exact absurd open_ fresh

/-- A release that is acknowledged is in the ledger. -/
theorem released_ledger {s : System} (inv : Inv s) {scope : ReadScope} {handle : FileDownloadHandle}
    (done : (s.registry.released scope handle s.clock).1 = .ok ()) :
    FileDownloads.handle handle scope = .ok () ∧ ∃ id t, handle.id = id.toString ∧ id.Minted ∧
      (step s (.released scope handle)).ledger.lookup id = some t ∧ t.scope = scope ∧
      t.handle = some handle ∧ t.released = true := by
  rcases @released_cases s.registry s.clock scope handle with refused | done'
  · obtain ⟨status, r, same, _⟩ := refused
    rw [same] at done
    cases done
  · obtain ⟨id, t, valid, named, fresh, owned, described, same⟩ := done'
    obtain ⟨valid, _⟩ := validate_ok.mp valid
    obtain ⟨text, minted, held⟩ := named_ok.mp named
    refine ⟨valid, id, { t with released := true }, text, minted, ?_, owned, described, Eq.refl _⟩
    show (s.released scope handle).ledger.lookup id = _
    unfold System.released
    rw [same, parse_ok.mpr ⟨text, minted⟩]
    show (Maps.modify id _ s.ledger).lookup id = _
    rw [Maps.lookup_modify, inv.tracks.known id t held]
    exact Eq.refl _

/-- In every run, however time advances: the limits hold, a ticket gets at most one handle and keeps it, a
handle validates only for its own scope and descriptor before its ticket expires, a recorded release is reported
until then, and an allocation is pending exactly while it has a ticket that is neither expired nor released. -/
theorem registry_sound (events : List Event) :
    let s := Run.run step {} events
    (s.registry.entries.length ≤ MAX_DOWNLOADS ∧ ∀ allocation, s.registry.held allocation ≤ MAX_ALLOCATION_DOWNLOADS) ∧
    (∀ id, (Run.answers step (finished id) {} events).length ≤ 1) ∧
    (∀ id t h later, s.ledger.lookup id = some t → t.handle = some h →
      ∀ t', (Run.run step s later).registry.lookup id = some t' → t'.handle = some h) ∧
    (∀ scope handle b, (s.registry.validate scope handle s.clock).1 = .ok b →
      ∃ id t, handle.id = id.toString ∧ s.ledger.lookup id = some t ∧ t.scope = scope ∧ t.handle = some handle ∧
        s.clock < t.expires ∧ t.released = b) ∧
    (∀ scope handle, (s.registry.released scope handle s.clock).1 = .ok () → ∀ later,
      let s' := Run.run step s (.released scope handle :: later)
      ∃ id t, handle.id = id.toString ∧ s'.ledger.lookup id = some t ∧ t.released = true ∧
        (s'.registry.validate scope handle s'.clock).1 = if s'.clock < t.expires then .ok true else .error missing) ∧
    ∀ allocation, (s.registry.pendingAllocation allocation s.clock).1 = true ↔
      ∃ id t, s.ledger.lookup id = some t ∧ t.scope.allocationId = allocation ∧ t.released = false ∧ s.clock < t.expires := by
  intro s
  have inv : Inv s := Run.run_invariant step_inv start_inv
  refine ⟨⟨inv.bounded.small, inv.bounded.each⟩, ?_, ?_, ?_, ?_, pending_exact inv⟩
  · intro id
    exact (finish_marks id).answers_le_one start_inv
  · intro id t h later found had t' held
    obtain ⟨t'', last, onward⟩ := run_grows inv later id t found
    have inv' : Inv (Run.run step s later) := Run.run_invariant step_inv inv
    have known := inv'.tracks.known id t' held
    rw [last] at known
    cases known
    exact onward.handle h had
  · intro scope handle b valid
    obtain ⟨_, id, t, named, fresh, owned, described, same⟩ := validate_ok.mp valid
    obtain ⟨text, _, held⟩ := named_ok.mp named
    exact ⟨id, t, text, inv.tracks.known id t held, owned, described, fresh, same⟩
  · intro scope handle done later s'
    obtain ⟨valid, id, t, text, minted, found, owned, described, released⟩ := released_ledger inv done
    have next := step_inv s (.released scope handle) inv
    obtain ⟨t', last, onward⟩ := run_grows next later id t found
    have inv' : Inv s' := Run.run_invariant step_inv inv
    have marked := onward.released released
    refine ⟨id, t', text, last, marked, ?_⟩
    exact validate_after inv' valid text minted last (onward.scope.trans owned) (onward.handle handle described) marked

end Forward

end HudsonSandbox.Host.Captures
