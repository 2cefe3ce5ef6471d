import HudsonSandbox.Library.Run
import Mathlib.Order.Lattice

/-!
# Leases with fencing revisions

One object of a system is claimed for a time: a claim is the revision that the object has, and it
is live until its lease runs out. From four laws about single steps follow, for every run and every
advance of the clock, that revisions are handed out once and in order, and that a claim which
expired or was superseded never writes again.
-/

namespace HudsonSandbox.Leases
open Run
variable {σ ι ρ τ : Type*} [LinearOrder ρ] [LinearOrder τ]

/-- The object's revision is none for as long as there is no such object. -/
structure Leased (σ ι ρ τ : Type*) where
  step : σ → ι → σ
  /-- The clock that an event reads, where it reads it. -/
  clock : ι → Option τ
  revision : σ → Option ρ
  Live : σ → τ → Prop
  /-- The revision that an event hands out. -/
  acquires : σ → ι → Option ρ
  /-- The revision under which an event writes. -/
  guard : ι → Option ρ

variable {sys : Leased σ ι ρ τ}

structure Fences (sys : Leased σ ι ρ τ) : Prop where
  forward : ∀ s event a, sys.revision s = some a → ∃ b, sys.revision (sys.step s event) = some b ∧ a ≤ b
  /-- Only a lease that is live is prolonged. -/
  lapses : ∀ s event a t, sys.revision s = some a → sys.revision (sys.step s event) = some a →
    (∀ now ∈ sys.clock event, now ≤ t) → sys.Live (sys.step s event) t → sys.Live s ((sys.clock event).getD t)
  /-- What is live was live before. -/
  earlier : ∀ s t t', sys.Live s t' → t ≤ t' → sys.Live s t
  acquired : ∀ s event r, sys.acquires s event = some r →
    sys.revision (sys.step s event) = some r ∧ ∃ a, sys.revision s = some a ∧ a < r
  guarded : ∀ s event r, sys.guard event = some r → sys.step s event ≠ s →
    ∃ now, sys.clock event = some now ∧ sys.revision s = some r ∧ sys.Live s now

/-- A claim is live: it is the object's revision, and its lease runs. -/
def Leased.Holds (sys : Leased σ ι ρ τ) (s : σ) (r : ρ) (t : τ) : Prop := sys.revision s = some r ∧ sys.Live s t

/-- The clocks of a list of events never go back, from a time on. -/
def Onward (clock : ι → Option τ) : τ → List ι → Prop
  | _, [] => True
  | t, event :: rest => (∀ now ∈ clock event, t ≤ now) ∧ Onward clock ((clock event).getD t) rest

/-- The events under a claim write nothing. -/
def Leased.Idle (sys : Leased σ ι ρ τ) (r : ρ) (s : σ) (events : List ι) : Prop :=
  Along sys.step (fun s event => sys.guard event = some r → sys.step s event = s) s events

/-- Claims of the object exclude each other in every run from a state. -/
structure Exclusive (sys : Leased σ ι ρ τ) (start : σ) : Prop where
  one : ∀ events t r r', sys.Holds (run sys.step start events) r t →
    sys.Holds (run sys.step start events) r' t → r = r'
  increasing : ∀ events, (answers sys.step sys.acquires start events).Pairwise (· < ·)
  /-- Once superseded, whatever the clocks say. -/
  superseded : ∀ events r a, sys.revision (run sys.step start events) = some a → r < a →
    ∀ later, sys.Idle r (run sys.step start events) later
  /-- Once expired, as long as the clock does not go back. -/
  expired : ∀ events r t, sys.revision (run sys.step start events) = some r →
    ¬sys.Live (run sys.step start events) t → ∀ later, Onward sys.clock t later →
      sys.Idle r (run sys.step start events) later

theorem Fences.acquired_above (laws : Fences sys) {s : σ} {events : List ι} {a : ρ}
    (known : sys.revision s = some a) : ∀ r ∈ answers sys.step sys.acquires s events, a < r := by
  induction events generalizing s a with
  | nil =>
    intro r found
    cases found
  | cons event rest ih =>
    intro r found
    obtain ⟨b, next, forward⟩ := laws.forward s event a known
    rcases List.mem_append.mp found with now | later
    · obtain ⟨_, before, same, raised⟩ := laws.acquired s event r (Option.mem_toList.mp now)
      rw [known] at same
      cases same
      exact raised
    · exact lt_of_le_of_lt forward (ih next r later)

theorem Fences.acquired_increasing (laws : Fences sys) (s : σ) (events : List ι) :
    (answers sys.step sys.acquires s events).Pairwise (· < ·) := by
  induction events generalizing s with
  | nil => exact .nil
  | cons event rest ih =>
    cases acquired : sys.acquires s event with
    | none =>
      rw [answers, acquired]
      exact ih (sys.step s event)
    | some r =>
      rw [answers, acquired]
      exact .cons (laws.acquired_above (laws.acquired s event r acquired).1) (ih (sys.step s event))

/-- Behind a raised revision nothing is written. -/
theorem Fences.idle_of_superseded (laws : Fences sys) {s : σ} {r a : ρ} (known : sys.revision s = some a)
    (behind : r < a) (events : List ι) : sys.Idle r s events := by
  induction events generalizing s a with
  | nil => trivial
  | cons event rest ih =>
    obtain ⟨b, next, forward⟩ := laws.forward s event a known
    refine ⟨fun guard => ?_, ih next (lt_of_lt_of_le behind forward)⟩
    by_contra wrote
    obtain ⟨_, _, same, _⟩ := laws.guarded s event r guard wrote
    rw [known] at same
    cases same
    exact lt_irrefl r behind

theorem Fences.idle_of_expired (laws : Fences sys) {s : σ} {r : ρ} {t : τ} (known : sys.revision s = some r)
    (dead : ¬sys.Live s t) {events : List ι} (onward : Onward sys.clock t events) : sys.Idle r s events := by
  induction events generalizing s t with
  | nil => trivial
  | cons event rest ih =>
    obtain ⟨ahead, onward⟩ := onward
    obtain ⟨b, next, forward⟩ := laws.forward s event r known
    refine ⟨fun guard => ?_, ?_⟩
    · by_contra wrote
      obtain ⟨now, clock, _, live⟩ := laws.guarded s event r guard wrote
      exact dead (laws.earlier s t now live (ahead now clock))
    · rcases forward.eq_or_lt with rfl | raised
      · refine ih next (fun live => dead ?_) onward
        -- had the lease been prolonged, it would have been live when the step read the clock
        have held := laws.lapses s event r ((sys.clock event).getD t) known next ?_ live
        · cases clock : sys.clock event with
          | none =>
            rw [clock] at held
            exact held
          | some now =>
            rw [clock] at held
            exact laws.earlier s t now held (ahead now clock)
        · intro now clock
          rw [Option.mem_def.mp clock]
          exact le_rfl
      · exact laws.idle_of_superseded next raised rest

theorem Fences.exclusive (laws : Fences sys) (start : σ) : Exclusive sys start where
  one := by
    intro events t r r' held held'
    exact Option.some.inj (held.1.symm.trans held'.1)
  increasing := laws.acquired_increasing start
  superseded := by
    intro events r a known behind later
    exact laws.idle_of_superseded known behind later
  expired := by
    intro events r t known dead later onward
    exact laws.idle_of_expired known dead onward

end HudsonSandbox.Leases
