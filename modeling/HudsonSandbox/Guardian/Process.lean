import HudsonSandbox.Guardian.Deadline
import HudsonSandbox.Guardian.Manifest

/-!
# The requests of a running guardian

Renewals, stops and bindings share one record under a mutex, its file, and the deadline that the
watchdog reads without the mutex. A renewal is written before the deadline is extended, and the
record changes last: what failed in between is never in force.
-/

namespace HudsonSandbox.Guardian
open Checked Run Stored

/-- Clocks in milliseconds: the wall's since 1970, and the boot's. -/
structure Clocks where
  wall : ℕ
  boot : ℕ
  deriving DecidableEq

/-- What a deadline was computed from. -/
structure Grant where
  expires : ℤ
  clocks : Clocks
  deriving DecidableEq

/-- A renewal that holds the mutex: its record is written, the deadline is not extended yet. -/
structure Renewal where
  prior : ℕ
  renewed : Receipt
  deriving DecidableEq

/-- `binding` are the records that a bind read before it asked the guest. `granted` is history that
the code never reads. -/
structure Process where
  record : Receipt
  file : Stored Receipt
  deadline : Deadline
  renewing : Option Renewal
  binding : List Receipt
  granted : Grant

namespace Process

/-- A guardian whose guest runs; the launch has written its record. -/
def start (receipt : Receipt) (clocks : Clocks) : Except String Process := do
  let deadline ← Deadline.new receipt.expiresUnixMs clocks.wall clocks.boot
  ensure (receipt.state = .running) "guardian not running"
  pure { record := receipt, file := .of receipt, deadline, renewing := none, binding := [],
         granted := ⟨receipt.expiresUnixMs, clocks⟩ }

inductive Event where
  | inspect
  | stop (write : Write)
  /-- `authorized` is what the launch authority says. -/
  | renew (revision : ℕ) (expires : ℤ) (authorized : Bool) (clocks : Clocks) (write : Write)
  /-- The renewal that holds the mutex goes on. -/
  | extend (clocks : Clocks)
  /-- The first look of a bind, before the guest is asked. -/
  | greet (authorized : Bool) (clocks : Clocks)
  /-- The guest has answered with its boot; `valid` says that its identity has not run out. -/
  | bind (before : Receipt) (boot : List Char) (valid : Bool) (clocks : Clocks) (write : Write)
  /-- The virtual machine has exited. -/
  | exited (write : Write)
  /-- A step of the watchdog. -/
  | read (boot : ℕ)
  | expire (prior : ℕ)
  deriving DecidableEq

def fence (s : Process) : Process := { s with deadline := { s.deadline with value := 0 } }

/-- What a renewal checks before it writes. -/
def renewCheck (record : Receipt) (prior revision : ℕ) (expires : ℤ) (authorized : Bool)
    (clocks : Clocks) : Except String Unit := do
  ensure (authorized = true) "launch not authorized"
  ensure (∃ limit ∈ record.identityExpiresUnixMs, expires < limit) "renewal exceeds channel validity"
  ensure (clocks.boot < prior ∧ record.state = .running) "allocation lease is no longer live"
  ensure (0 < revision ∧ record.renewalRevision ≤ revision) "stale lease revision"

def renew (s : Process) (revision : ℕ) (expires : ℤ) (authorized : Bool) (clocks : Clocks)
    (write : Write) : Process × Option (Except String Receipt) :=
  let prior := s.deadline.value
  match renewCheck s.record prior revision expires authorized clocks with
  | .error e => (s, some (.error e))
  | .ok () =>
    if revision = s.record.renewalRevision then
      if expires = s.record.expiresUnixMs then (s, some (.ok s.record))
      else (s, some (.error "conflicting renewal retry"))
    else
      match (do
          ensure (s.record.expiresUnixMs ≤ expires) "renewal cannot shorten lease"
          Deadline.convert expires clocks.wall clocks.boot : Except String ℕ) with
      | .error e => (s, some (.error e))
      | .ok _ =>
        let renewed := { s.record with renewalRevision := revision, expiresUnixMs := expires }
        let saved := { s with file := s.file.write renewed write }
        if write = .done then ({ saved with renewing := some { prior, renewed } }, none)
        else (saved.fence, some (.error "renewal persistence unconfirmed"))

/-- The record is replaced only by a renewal whose deadline is in force. -/
def extend (s : Process) (clocks : Clocks) : Process × Option (Except String Receipt) :=
  match s.renewing with
  | none => (s, none)
  | some { prior, renewed } =>
    match Deadline.extend s.deadline.value prior renewed.expiresUnixMs clocks.wall clocks.boot with
    | (_, .error e) => ({ s with renewing := none }, some (.error e))
    | (value, .ok ()) =>
      ({ s with record := renewed, deadline := { s.deadline with value }, renewing := none,
                granted := ⟨renewed.expiresUnixMs, clocks⟩ }, some (.ok renewed))

/-- The deadline is fenced whether or not the stop could be written. -/
def stop (s : Process) (write : Write) : Process × Option (Except String Receipt) :=
  let record := { s.record with state := .stopping, reason := some "stop_requested".toList }
  let stopped := { s with record, file := s.file.write record write }.fence
  (stopped, some (if write = .done then .ok record else .error "stop unconfirmed"))

def greet (s : Process) (authorized : Bool) (clocks : Clocks) :
    Process × Option (Except String Receipt) :=
  if authorized = true ∧ s.record.state = .running ∧ clocks.boot < s.deadline.value then
    ({ s with binding := s.record :: s.binding }, none)
  else (s, some (.error "allocation is not live"))

def bindCheck (s : Process) (boot : List Char) (valid : Bool) (clocks : Clocks) :
    Except String Unit := do
  ensure (s.record.state = .running ∧ clocks.boot < s.deadline.value ∧ valid = true)
    "allocation stopped during guest handshake"
  ensure (∀ id ∈ s.record.guestBootId, id = boot) "guest boot changed after binding"

def bind (s : Process) (boot : List Char) (valid : Bool) (clocks : Clocks) (write : Write) :
    Process × Option (Except String Receipt) :=
  match bindCheck s boot valid clocks with
  | .error e => (s, some (.error e))
  | .ok () =>
    if s.record.guestBootId.isSome = true then (s, some (.ok s.record))
    else
      let bound := { s.record with guestBootId := some boot }
      let saved := { s with file := s.file.write bound write }
      if write = .done then ({ saved with record := bound }, some (.ok bound))
      else (saved.fence, some (.error "guest binding persistence unconfirmed"))

def exited (s : Process) (write : Write) : Process × Option (Except String Receipt) :=
  let record := { s.record with state := .stopping, reason := some "firecracker_exited".toList }
  ({ s with record, file := s.file.write record write }, none)

/-- What a request leaves and answers; one that goes on later has no answer yet. Who needs the
mutex waits while a renewal holds it. -/
def handle (s : Process) (event : Event) : Process × Option (Except String Receipt) :=
  match event with
  | .read boot => ({ s with deadline := s.deadline.step (.read boot) }, none)
  | .expire prior => ({ s with deadline := s.deadline.step (.expire prior) }, none)
  | .extend clocks => s.extend clocks
  | event =>
    if s.renewing.isSome = true then (s, none)
    else
      match event with
      | .inspect => (s, some (.ok s.record))
      | .stop write => s.stop write
      | .renew revision expires authorized clocks write => s.renew revision expires authorized clocks write
      | .greet authorized clocks => s.greet authorized clocks
      | .bind before boot valid clocks write =>
        if before ∈ s.binding then
          { s with binding := s.binding.erase before }.bind boot valid clocks write
        else (s, none)
      | .exited write => s.exited write
      | _ => (s, none)

def step (s : Process) (event : Event) : Process := (s.handle event).1

/-! ### What one request can do -/

section
variable {s : Process} {record renewed : Receipt} {revision : ℕ} {expires : ℤ} {clocks : Clocks}
  {write : Write}

inductive RenewStep (s : Process) (revision : ℕ) (expires : ℤ) (write : Write) :
    Process × Option (Except String Receipt) → Prop where
  | refused (e : String) : RenewStep s revision expires write (s, some (.error e))
  | again (same : revision = s.record.renewalRevision) (kept : expires = s.record.expiresUnixMs)
      (live : s.deadline.value ≠ 0) (running : s.record.state = .running) :
      RenewStep s revision expires write (s, some (.ok s.record))
  | written (newer : s.record.renewalRevision < revision) (longer : s.record.expiresUnixMs ≤ expires)
      (live : s.deadline.value ≠ 0) (running : s.record.state = .running) :
      RenewStep s revision expires write
        ({ s with
            file := .of { s.record with renewalRevision := revision, expiresUnixMs := expires }
            renewing := some
              { prior := s.deadline.value
                renewed := { s.record with renewalRevision := revision, expiresUnixMs := expires } } },
          none)
  | unconfirmed (e : String) (newer : s.record.renewalRevision < revision)
      (longer : s.record.expiresUnixMs ≤ expires) :
      RenewStep s revision expires write
        (fence { s with
          file := s.file.write { s.record with renewalRevision := revision, expiresUnixMs := expires }
            write }, some (.error e))

theorem renewCheck_ok {prior : ℕ} {authorized : Bool}
    (passed : renewCheck record prior revision expires authorized clocks = .ok ()) :
    clocks.boot < prior ∧ record.state = .running ∧ record.renewalRevision ≤ revision := by
  obtain ⟨_, passed⟩ := seq_ok.mp passed
  obtain ⟨_, passed⟩ := seq_ok.mp passed
  obtain ⟨live, newer⟩ := seq_ok.mp passed
  exact ⟨(ensure_ok.mp live).1, (ensure_ok.mp live).2, (ensure_ok.mp newer).2⟩

theorem renew_step {authorized : Bool} :
    RenewStep s revision expires write (s.renew revision expires authorized clocks write) := by
  unfold renew
  dsimp only
  split
  · exact .refused _
  next passed =>
    obtain ⟨boot, running, known⟩ := renewCheck_ok passed
    have live : s.deadline.value ≠ 0 := by omega
    by_cases same : revision = s.record.renewalRevision
    · rw [if_pos same]
      split
      next kept => exact .again same kept live running
      · exact .refused _
    · rw [if_neg same]
      have newer : s.record.renewalRevision < revision := by omega
      split
      · exact .refused _
      next converted =>
        have longer := ensure_ok.mp (seq_ok.mp converted).1
        by_cases done : write = .done
        · subst done
          exact .written newer longer live running
        · rw [if_neg done]
          exact .unconfirmed _ newer longer

inductive ExtendStep (s : Process) (clocks : Clocks) :
    Process × Option (Except String Receipt) → Prop where
  | idle (free : s.renewing = none) : ExtendStep s clocks (s, none)
  | refused (e : String) : ExtendStep s clocks ({ s with renewing := none }, some (.error e))
  | extended (renewal : Renewal) (value : ℕ) (held : s.renewing = some renewal)
      (live : s.deadline.value ≠ 0)
      (exact : Deadline.convert renewal.renewed.expiresUnixMs clocks.wall clocks.boot = .ok value) :
      ExtendStep s clocks
        ({ s with
            record := renewal.renewed, deadline := { s.deadline with value }, renewing := none
            granted := ⟨renewal.renewed.expiresUnixMs, clocks⟩ }, some (.ok renewal.renewed))

theorem extend_step : ExtendStep s clocks (s.extend clocks) := by
  unfold extend
  split
  next free => exact .idle free
  next prior renewed held =>
    have extends_ :=
      Deadline.extend_extends s.deadline.value prior renewed.expiresUnixMs clocks.wall clocks.boot
    generalize Deadline.extend s.deadline.value prior renewed.expiresUnixMs clocks.wall clocks.boot = result
      at extends_
    cases extends_ with
    | refused e => exact .refused e
    | extended next _ found live longer exact => exact .extended ⟨prior, renewed⟩ next held (by omega) exact

inductive BindStep (s : Process) (boot : List Char) (write : Write) :
    Process × Option (Except String Receipt) → Prop where
  | refused (e : String) : BindStep s boot write (s, some (.error e))
  | again (same : s.record.guestBootId = some boot) : BindStep s boot write (s, some (.ok s.record))
  | bound (fresh : s.record.guestBootId = none) :
      BindStep s boot write
        ({ s with
            record := { s.record with guestBootId := some boot }
            file := .of { s.record with guestBootId := some boot } },
          some (.ok { s.record with guestBootId := some boot }))
  | unconfirmed (e : String) (fresh : s.record.guestBootId = none) :
      BindStep s boot write
        (fence { s with file := s.file.write { s.record with guestBootId := some boot } write },
          some (.error e))

theorem bind_step {boot : List Char} {valid : Bool} :
    BindStep s boot write (s.bind boot valid clocks write) := by
  unfold bind
  split
  · exact .refused _
  next passed =>
    obtain ⟨_, same⟩ := seq_ok.mp passed
    have same := ensure_ok.mp same
    cases bound : s.record.guestBootId with
    | some id =>
      rw [bound] at same
      exact .again (bound.trans (congrArg some (same id rfl)))
    | none =>
      by_cases done : write = .done
      · subst done
        exact .bound bound
      · simp only [Option.isSome_none, Bool.false_eq_true, if_false]
        rw [if_neg done]
        exact .unconfirmed _ bound

/-! ### The record only grows -/

structure Grows (a b : Receipt) : Prop where
  revision : a.renewalRevision ≤ b.renewalRevision
  expires : a.expiresUnixMs ≤ b.expiresUnixMs
  boot : ∀ id ∈ a.guestBootId, b.guestBootId = some id
  stopping : a.state = .stopping → b.state = .stopping

theorem Grows.refl (a : Receipt) : Grows a a := ⟨le_rfl, le_rfl, fun _ same => same, id⟩

theorem Grows.trans {a b c : Receipt} (first : Grows a b) (second : Grows b c) : Grows a c where
  revision := first.revision.trans second.revision
  expires := first.expires.trans second.expires
  boot id found := second.boot id (first.boot id found)
  stopping stopped := second.stopping (first.stopping stopped)

/-- A write of the file is never behind the record. -/
def Ahead (record file : Receipt) : Prop :=
  record.renewalRevision ≤ file.renewalRevision ∧ record.expiresUnixMs ≤ file.expiresUnixMs ∧
    ∀ id ∈ record.guestBootId, file.guestBootId = some id

theorem Ahead.refl (record : Receipt) : Ahead record record := ⟨le_rfl, le_rfl, fun _ same => same⟩

theorem Grows.ahead {a b : Receipt} (grows : Grows a b) : Ahead a b :=
  ⟨grows.revision, grows.expires, grows.boot⟩

/-- The deadline is zero, or what the clocks gave for an expiry of the record when it was set. -/
def Granted (s : Process) : Prop :=
  s.deadline.value ≠ 0 → s.granted.expires ≤ s.record.expiresUnixMs ∧
    Deadline.convert s.granted.expires s.granted.clocks.wall s.granted.clocks.boot = .ok s.deadline.value

structure Inv (s : Process) : Prop where
  file : s.file.Always (Ahead s.record)
  granted : Granted s
  renewing : ∀ r ∈ s.renewing, s.file = .of r.renewed ∧ Grows s.record r.renewed ∧
    s.record.state = .running

/-- A step keeps the invariant and takes nothing of the record back. -/
def Sound (s t : Process) : Prop := Inv t ∧ Grows s.record t.record

theorem Inv.same (inv : Inv s) : Sound s s := ⟨inv, .refl _⟩

theorem Sound.fenced {file : Stored Receipt} (free : s.renewing = none)
    (ahead : file.Always (Ahead s.record)) : Sound s (fence { s with file }) :=
  ⟨⟨ahead, fun live => absurd rfl live, fun r held => by cases free.symm.trans held⟩, .refl _⟩

theorem renew_sound {authorized : Bool} (inv : Inv s) (free : s.renewing = none) :
    Sound s (s.renew revision expires authorized clocks write).1 := by
  have step : RenewStep s revision expires write (s.renew revision expires authorized clocks write) :=
    renew_step
  generalize s.renew revision expires authorized clocks write = result at step
  cases step with
  | refused => exact inv.same
  | again => exact inv.same
  | written newer longer live running =>
    have grows : Grows s.record { s.record with renewalRevision := revision, expiresUnixMs := expires } :=
      ⟨newer.le, longer, fun _ same => same, id⟩
    refine ⟨⟨.of grows.ahead, inv.granted, ?_⟩, .refl _⟩
    rintro r ⟨⟩
    exact ⟨rfl, grows, running⟩
  | unconfirmed e newer longer =>
    have ahead : Ahead s.record { s.record with renewalRevision := revision, expiresUnixMs := expires } :=
      ⟨newer.le, longer, fun _ same => same⟩
    exact .fenced free (inv.file.write ahead write)

theorem extend_sound (inv : Inv s) : Sound s (s.extend clocks).1 := by
  have step : ExtendStep s clocks (s.extend clocks) := extend_step
  generalize s.extend clocks = result at step
  cases step with
  | idle => exact inv.same
  | refused => exact ⟨⟨inv.file, inv.granted, by rintro r ⟨⟩⟩, .refl _⟩
  | extended renewal value held live exact =>
    obtain ⟨written, grows, _⟩ := inv.renewing renewal held
    refine ⟨⟨?_, fun _ => ⟨le_rfl, exact⟩, by rintro r ⟨⟩⟩, grows⟩
    change s.file.Always (Ahead renewal.renewed)
    rw [written]
    exact .of (.refl _)

theorem bind_sound {boot : List Char} {valid : Bool} (inv : Inv s) (free : s.renewing = none) :
    Sound s (s.bind boot valid clocks write).1 := by
  have step : BindStep s boot write (s.bind boot valid clocks write) := bind_step
  generalize s.bind boot valid clocks write = result at step
  cases step with
  | refused => exact inv.same
  | again => exact inv.same
  | bound fresh =>
    refine ⟨⟨.of (.refl _), inv.granted, fun r held => ?_⟩, le_rfl, le_rfl, ?_, id⟩
    · cases free.symm.trans held
    · intro id found
      cases fresh.symm.trans found
  | unconfirmed e fresh =>
    have ahead : Ahead s.record { s.record with guestBootId := some boot } :=
      ⟨le_rfl, le_rfl, fun id found => by cases fresh.symm.trans found⟩
    exact .fenced free (inv.file.write ahead write)

/-- A stop, or the exit of the virtual machine, changes only the state and its reason. -/
theorem stopped_sound {reason : Option (List Char)} {deadline : Deadline} (inv : Inv s)
    (free : s.renewing = none) (kept : deadline.value = s.deadline.value ∨ deadline.value = 0) :
    Sound s { s with record := { s.record with state := .stopping, reason }, deadline
                     file := s.file.write { s.record with state := .stopping, reason } write } := by
  have ahead : s.file.Always (Ahead { s.record with state := .stopping, reason }) := inv.file
  refine ⟨⟨ahead.write (.refl _) write, fun live => ?_, fun r held => ?_⟩,
    le_rfl, le_rfl, fun _ same => same, fun _ => rfl⟩
  · obtain same | zero := kept
    · obtain ⟨within, exact⟩ := inv.granted (same ▸ live)
      refine ⟨within, ?_⟩
      change _ = Except.ok deadline.value
      rw [same]
      exact exact
    · exact absurd zero live
  · cases free.symm.trans held

theorem watch_sound {event : Deadline.Event} (inv : Inv s)
    (kept : (s.deadline.step event).value = s.deadline.value ∨ (s.deadline.step event).value = 0) :
    Sound s { s with deadline := s.deadline.step event } := by
  refine ⟨⟨inv.file, fun live => ?_, inv.renewing⟩, .refl _⟩
  obtain same | zero := kept
  · obtain ⟨within, exact⟩ := inv.granted (same ▸ live)
    exact ⟨within, exact.trans (congrArg _ same.symm)⟩
  · exact absurd zero live

/-! ### Runs -/

theorem watch_value (d : Deadline) (event : Deadline.Event) (watch : ∀ prior expires wall boot,
    event ≠ .extend prior expires wall boot) : (d.step event).value = d.value ∨ (d.step event).value = 0 := by
  cases event with
  | stop => exact .inr rfl
  | extend prior expires wall boot => exact absurd rfl (watch prior expires wall boot)
  | read boot =>
    rw [Deadline.step]
    split
    · exact .inl rfl
    · exact .inl rfl
  | expire prior =>
    rw [Deadline.step]
    split
    · change (Deadline.compareExchange d.value prior 0).1 = d.value ∨ (Deadline.compareExchange d.value prior 0).1 = 0
      unfold Deadline.compareExchange
      split
      · exact .inr rfl
      · exact .inl rfl
    · exact .inl rfl

/-- A request that needs the mutex finds it free, or waits. -/
theorem handle_waits {event : Event} (held : s.renewing.isSome = true) (needs : ∀ clocks, event ≠ .extend clocks)
    (read : ∀ boot, event ≠ .read boot) (expire : ∀ prior, event ≠ .expire prior) :
    s.handle event = (s, none) := by
  cases event with
  | extend clocks => exact absurd rfl (needs clocks)
  | read boot => exact absurd rfl (read boot)
  | expire prior => exact absurd rfl (expire prior)
  | _ => exact if_pos held

theorem step_sound (inv : Inv s) (event : Event) : Sound s (s.step event) := by
  by_cases held : s.renewing.isSome = true
  · cases event with
    | extend clocks => exact extend_sound inv
    | read boot => exact watch_sound inv (watch_value _ _ (by rintro _ _ _ _ ⟨⟩))
    | expire prior => exact watch_sound inv (watch_value _ _ (by rintro _ _ _ _ ⟨⟩))
    | _ =>
      unfold step
      rw [handle_waits held (by rintro _ ⟨⟩) (by rintro _ ⟨⟩) (by rintro _ ⟨⟩)]
      exact inv.same
  · have free : s.renewing = none := by simpa using held
    unfold step handle
    cases event with
    | extend clocks => exact extend_sound inv
    | read boot => exact watch_sound inv (watch_value _ _ (by rintro _ _ _ _ ⟨⟩))
    | expire prior => exact watch_sound inv (watch_value _ _ (by rintro _ _ _ _ ⟨⟩))
    | inspect =>
      dsimp only
      rw [if_neg held]
      exact inv.same
    | stop write =>
      dsimp only
      rw [if_neg held]
      exact stopped_sound inv free (.inr rfl)
    | renew =>
      dsimp only
      rw [if_neg held]
      exact renew_sound inv free
    | greet =>
      dsimp only
      rw [if_neg held]
      unfold greet
      split
      · exact ⟨⟨inv.file, inv.granted, inv.renewing⟩, .refl _⟩
      · exact inv.same
    | bind before =>
      dsimp only
      rw [if_neg held]
      split
      · have kept : Inv { s with binding := s.binding.erase before } :=
          ⟨inv.file, inv.granted, inv.renewing⟩
        exact bind_sound kept free
      · exact inv.same
    | exited =>
      dsimp only
      rw [if_neg held]
      exact stopped_sound inv free (.inl rfl)

theorem run_sound (inv : Inv s) (events : List Event) : Sound s (run step s events) := by
  induction events generalizing s with
  | nil => exact inv.same
  | cons event rest ih =>
    obtain ⟨next, grows⟩ := step_sound inv event
    obtain ⟨last, grown⟩ := ih next
    exact ⟨last, grows.trans grown⟩

theorem start_inv {receipt : Receipt} {s : Process} (started : start receipt clocks = .ok s) :
    Inv s := by
  obtain ⟨deadline, created, started⟩ := bind_ok.mp started
  obtain ⟨_, started⟩ := seq_ok.mp started
  obtain rfl := pure_ok.mp started
  obtain ⟨value, converted, created⟩ := bind_ok.mp created
  obtain rfl := pure_ok.mp created
  exact ⟨.of (.refl _), fun _ => ⟨le_rfl, converted⟩, by rintro r ⟨⟩⟩

/-! ### After a stop -/

/-- A stop was handled: the record says so, the deadline is fenced and no renewal is under way. -/
structure Stopped (s : Process) : Prop where
  state : s.record.state = .stopping
  fenced : s.deadline.value = 0
  free : s.renewing = none

theorem Stopped.refuses (stopped : Stopped s) (revision : Nat) (expires : Int) (authorized : Bool)
    (clocks : Clocks) (write : Write) :
    ∃ e, s.renew revision expires authorized clocks write = (s, some (.error e)) := by
  have step : RenewStep s revision expires write (s.renew revision expires authorized clocks write) :=
    renew_step
  have failed : ∃ e, renewCheck s.record s.deadline.value revision expires authorized clocks = .error e := by
    cases checked : renewCheck s.record s.deadline.value revision expires authorized clocks with
    | error e => exact ⟨e, rfl⟩
    | ok =>
      obtain ⟨boot, _⟩ := renewCheck_ok checked
      rw [stopped.fenced] at boot
      omega
  obtain ⟨e, failed⟩ := failed
  refine ⟨e, ?_⟩
  unfold renew
  dsimp only
  rw [failed]

theorem Stopped.bind_fenced (stopped : Stopped s) (boot : List Char) (valid : Bool) (clocks : Clocks)
    (write : Write) :
    ∃ e, s.bind boot valid clocks write = (s, some (.error e)) := by
  have failed : ∃ e, bindCheck s boot valid clocks = .error e := by
    cases checked : bindCheck s boot valid clocks with
    | error e => exact ⟨e, rfl⟩
    | ok =>
      have live := (ensure_ok.mp (seq_ok.mp checked).1).2.1
      rw [stopped.fenced] at live
      omega
  obtain ⟨e, failed⟩ := failed
  refine ⟨e, ?_⟩
  unfold bind
  rw [failed]

theorem Stopped.step (stopped : Stopped s) (event : Event) : Stopped (s.step event) := by
  have held : ¬s.renewing.isSome = true := by rw [stopped.free]; decide
  have watched {event : Deadline.Event} (watch : ∀ prior expires wall boot,
      event ≠ .extend prior expires wall boot) : Stopped { s with deadline := s.deadline.step event } := by
    refine ⟨stopped.state, ?_, stopped.free⟩
    obtain same | zero := watch_value s.deadline event watch
    · exact same.trans stopped.fenced
    · exact zero
  unfold Process.step handle
  cases event with
  | extend clocks =>
    have step : ExtendStep s clocks (s.extend clocks) := extend_step
    dsimp only
    generalize s.extend clocks = result at step
    cases step with
    | idle => exact stopped
    | refused => exact ⟨stopped.state, stopped.fenced, rfl⟩
    | extended renewal value held => cases stopped.free.symm.trans held
  | read boot => exact watched (by rintro _ _ _ _ ⟨⟩)
  | expire prior => exact watched (by rintro _ _ _ _ ⟨⟩)
  | inspect =>
    dsimp only
    rw [if_neg held]
    exact stopped
  | stop write =>
    dsimp only
    rw [if_neg held]
    exact ⟨rfl, rfl, stopped.free⟩
  | renew revision expires authorized clocks write =>
    dsimp only
    rw [if_neg held]
    obtain ⟨e, same⟩ := stopped.refuses revision expires authorized clocks write
    rw [same]
    exact stopped
  | greet =>
    dsimp only
    rw [if_neg held]
    unfold greet
    split
    · exact ⟨stopped.state, stopped.fenced, stopped.free⟩
    · exact stopped
  | bind before boot valid clocks write =>
    dsimp only
    rw [if_neg held]
    split
    · have kept : Stopped { s with binding := s.binding.erase before } :=
        ⟨stopped.state, stopped.fenced, stopped.free⟩
      obtain ⟨e, same⟩ := kept.bind_fenced boot valid clocks write
      rw [same]
      exact kept
    · exact stopped
  | exited =>
    dsimp only
    rw [if_neg held]
    exact ⟨rfl, stopped.fenced, stopped.free⟩

theorem Stopped.run (stopped : Stopped s) (events : List Event) : Stopped (Run.run Process.step s events) := by
  induction events generalizing s with
  | nil => exact stopped
  | cons event rest ih => exact ih (stopped.step event)

/-- No renewal is answered after a stop. -/
theorem Stopped.answers (stopped : Stopped s) (r : Receipt) :
    (∀ revision expires authorized clocks write,
      (s.handle (.renew revision expires authorized clocks write)).2 ≠ some (.ok r)) ∧
    ∀ clocks, (s.handle (.extend clocks)).2 ≠ some (.ok r) := by
  constructor
  · intro revision expires authorized clocks write
    have served : s.handle (.renew revision expires authorized clocks write) =
        s.renew revision expires authorized clocks write := if_neg (by rw [stopped.free]; decide)
    obtain ⟨e, refused⟩ := stopped.refuses revision expires authorized clocks write
    rw [served, refused]
    rintro ⟨⟩
  · intro clocks
    change (Process.extend _ clocks).2 ≠ _
    unfold Process.extend
    rw [stopped.free]
    rintro ⟨⟩

theorem repeated {authorized : Bool} (free : s.renewing = none) :
    s.step (.renew s.record.renewalRevision expires authorized clocks write) = s ∧
      (expires ≠ s.record.expiresUnixMs → ∃ e,
        (s.handle (.renew s.record.renewalRevision expires authorized clocks write)).2 = some (.error e)) ∧
      ∀ r, (s.handle (.renew s.record.renewalRevision expires authorized clocks write)).2 = some (.ok r) →
        r = s.record := by
  have served : s.handle (.renew s.record.renewalRevision expires authorized clocks write) =
      s.renew s.record.renewalRevision expires authorized clocks write :=
    if_neg (by rw [free]; decide)
  have step : RenewStep s s.record.renewalRevision expires write
      (s.renew s.record.renewalRevision expires authorized clocks write) := renew_step
  unfold Process.step
  rw [served]
  generalize s.renew s.record.renewalRevision expires authorized clocks write = result at step
  cases step with
  | refused e => exact ⟨rfl, fun _ => ⟨e, rfl⟩, by rintro r ⟨⟩⟩
  | again _ kept => exact ⟨rfl, fun changed => absurd kept changed, fun r same => (by cases same; rfl)⟩
  | written newer => exact absurd newer (Nat.lt_irrefl _)
  | unconfirmed e newer => exact absurd newer (Nat.lt_irrefl _)

/-- The record never goes back, and its file is never behind it; a revision is repeated with the
same content or not at all; nothing is renewed after a stop; the deadline is what the clocks gave
for an expiry that is on the disk; a bound boot stays. -/
theorem process_runs (receipt : Receipt) (clocks : Clocks) (first : Process)
    (started : start receipt clocks = .ok first) (before after : List Event) :
    let s := run step first before
    let t := run step s after
    (s.record.renewalRevision ≤ t.record.renewalRevision ∧
      s.record.expiresUnixMs ≤ t.record.expiresUnixMs ∧ t.file.Always (Ahead t.record)) ∧
    (s.renewing = none → ∀ expires authorized clocks write,
      s.step (.renew s.record.renewalRevision expires authorized clocks write) = s ∧
        (expires ≠ s.record.expiresUnixMs → ∃ e, (s.handle
          (.renew s.record.renewalRevision expires authorized clocks write)).2 = some (.error e)) ∧
        ∀ r, (s.handle (.renew s.record.renewalRevision expires authorized clocks write)).2 =
          some (.ok r) → r = s.record) ∧
    (s.renewing = none → ∀ write,
      let u := run step (s.step (.stop write)) after
      u.deadline.value = 0 ∧ ∀ r, (∀ revision expires authorized clocks write,
          (u.handle (.renew revision expires authorized clocks write)).2 ≠ some (.ok r)) ∧
        ∀ clocks, (u.handle (.extend clocks)).2 ≠ some (.ok r)) ∧
    (t.deadline.value ≠ 0 →
      (t.deadline.value : ℤ) = t.granted.clocks.boot + (t.granted.expires - t.granted.clocks.wall) ∧
        t.granted.expires ≤ t.record.expiresUnixMs ∧
        t.file.Always fun r => t.granted.expires ≤ r.expiresUnixMs) ∧
    ∀ id ∈ s.record.guestBootId, t.record.guestBootId = some id := by
  intro s t
  obtain ⟨inv, _⟩ : Sound first s := run_sound (start_inv started) before
  obtain ⟨last, grows⟩ : Sound s t := run_sound inv after
  refine ⟨⟨grows.revision, grows.expires, last.file⟩, ?_, ?_, ?_, grows.boot⟩
  · exact fun free _ _ _ _ => repeated free
  · intro free write
    have halted : Stopped (s.step (.stop write)) := by
      have served : s.handle (.stop write) = s.stop write := if_neg (by rw [free]; decide)
      unfold Process.step
      rw [served]
      exact ⟨rfl, rfl, free⟩
    have stopped := halted.run after
    exact ⟨stopped.fenced, stopped.answers⟩
  · intro live
    obtain ⟨within, exact⟩ := last.granted live
    obtain ⟨positive, _, _, same⟩ := Deadline.convert_ok.mp exact
    refine ⟨?_, within, last.file.imp fun r ahead => within.trans ahead.2.1⟩
    omega

end

/-! ### A renewal that is written but not confirmed -/

namespace ProcessSample

def receipt : Receipt where
  version := 1
  owner :=
    { host := ⟨1⟩, project := ⟨2⟩, sandbox := ⟨3⟩, allocation := ⟨4⟩, createOperation := ⟨5⟩, generation := 1
      epoch := 1 }
  digest := []
  hostBootId := ['b']
  state := .running
  cleanupConfirmed := false
  renewalRevision := 1
  expiresUnixMs := 2000
  guardianHostPid := none
  guardianStartTicks := none
  firecrackerNamespacePid := none
  cgroupInode := none
  reason := none
  identityDigest := none
  identityExpiresUnixMs := some 9000
  guestBootId := none

def first : Process where
  record := receipt
  file := .of receipt
  deadline := { value := 1100, expiring := [] }
  renewing := none
  binding := []
  granted := ⟨2000, ⟨1000, 100⟩⟩

/-- The directory could not be synced: the file holds the renewal, and the guardian fences. -/
def unconfirmed : List Event := [.renew 2 3000 true ⟨1001, 101⟩ .unsynced]

/-- The stop that follows writes the guardian's record over it. -/
theorem stop_takes_back :
    start receipt ⟨1000, 100⟩ = .ok first ∧
      (run step first unconfirmed).file.visible.renewalRevision = 2 ∧
      (run step first (unconfirmed ++ [.stop .done])).file.visible.renewalRevision = 1 ∧
      (run step first (unconfirmed ++ [.stop .done])).file.visible.expiresUnixMs = 2000 :=
  ⟨rfl, by decide⟩

theorem renewed_deadline :
    let t := run step (run step first []) [.renew 2 3000 true ⟨1001, 101⟩ .done, .extend ⟨1002, 102⟩]
    t.deadline.value = 2100 ∧ t.granted.expires ≤ t.record.expiresUnixMs := by
  have runs := process_runs receipt ⟨1000, 100⟩ first rfl []
    [.renew 2 3000 true ⟨1001, 101⟩ .done, .extend ⟨1002, 102⟩]
  exact ⟨by decide, (runs.2.2.2.1 (by decide)).2.1⟩

end ProcessSample
end Process
end HudsonSandbox.Guardian
