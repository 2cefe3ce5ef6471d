import HudsonSandbox.Library.Run
import Mathlib.Order.Lattice

/-!
# Reserved prefixes

A growing set of keys is retired from below: a prefix is reserved first and completed later. What
is reserved stays as it is until it is completed, and new keys are only taken above it, so that the
keys between the completed and the reserved prefix are the same all the while.
-/

namespace HudsonSandbox.Prefixes
open Run
variable {σ ι α : Type*} [LinearOrder α]

structure Reservation (α : Type*) where
  reservedThrough : α
  completedThrough : Option α

def Above (floor : Option α) (key : α) : Prop := ∀ f ∈ floor, f < key

instance (floor : Option α) (key : α) : Decidable (Above floor key) :=
  inferInstanceAs (Decidable (∀ f ∈ floor, f < key))

/-- One floor is at most as high as another; no floor is the lowest. -/
def FloorLE (a b : Option α) : Prop := ∀ x ∈ a, ∃ y ∈ b, x ≤ y

namespace Reservation
variable {r r' r'' : Reservation α}

/-- The reserved prefix is not completed yet. -/
def Unfinished (r : Reservation α) : Prop := r.completedThrough ≠ some r.reservedThrough

instance (r : Reservation α) : Decidable r.Unfinished := inferInstanceAs (Decidable (_ ≠ _))

/-- The keys that the reservation waits for. -/
def waiting (r : Reservation α) (keys : List α) : List α :=
  keys.filter fun key => Above r.completedThrough key ∧ key ≤ r.reservedThrough

def Lawful (r : Reservation α) : Prop := ∀ c ∈ r.completedThrough, c ≤ r.reservedThrough

inductive Moves (r r' : Reservation α) : Prop where
  | kept (same : r' = r)
  | completes (same : r' = { r with completedThrough := some r.reservedThrough })
  | enlarges (finished : ¬r.Unfinished) (higher : r.reservedThrough < r'.reservedThrough)
      (same : r'.completedThrough = r.completedThrough)

/-- A later state of a reservation: what is reserved stands until all of it is completed. -/
structure Later (r r' : Reservation α) : Prop where
  completed : FloorLE r.completedThrough r'.completedThrough
  reserved : r.reservedThrough ≤ r'.reservedThrough
  pending : r.Unfinished → r' = r ∨ FloorLE (some r.reservedThrough) r'.completedThrough

end Reservation

theorem FloorLE.refl (a : Option α) : FloorLE a a := fun x found => ⟨x, found, le_rfl⟩

theorem FloorLE.trans {a b c : Option α} (first : FloorLE a b) (second : FloorLE b c) : FloorLE a c := by
  intro x found
  obtain ⟨y, found, below⟩ := first x found
  obtain ⟨z, found, above⟩ := second y found
  exact ⟨z, found, below.trans above⟩

namespace Reservation
variable {r r' r'' : Reservation α}

theorem Later.refl (r : Reservation α) : Later r r :=
  ⟨.refl _, le_rfl, fun _ => .inl rfl⟩

theorem Moves.later (lawful : r.Lawful) (moves : Moves r r') : Later r r' := by
  cases moves with
  | kept same =>
    rw [same]
    exact .refl r
  | completes same =>
    rw [same]
    exact ⟨fun c found => ⟨r.reservedThrough, rfl, lawful c found⟩, le_rfl, fun _ => .inr (.refl _)⟩
  | enlarges finished higher same =>
    refine ⟨?_, higher.le, fun waits => absurd waits finished⟩
    rw [same]
    exact .refl _

theorem Later.trans (first : Later r r') (second : Later r' r'') : Later r r'' := by
  refine ⟨first.completed.trans second.completed, first.reserved.trans second.reserved, fun waits => ?_⟩
  rcases first.pending waits with rfl | done
  · exact second.pending waits
  · exact .inr (done.trans second.completed)

theorem Moves.lawful (lawful : r.Lawful) (moves : Moves r r') : r'.Lawful := by
  cases moves with
  | kept same =>
    rw [same]
    exact lawful
  | completes same =>
    rw [same]
    intro c found
    cases found
    exact le_rfl
  | enlarges finished higher same =>
    intro c found
    rw [same] at found
    exact (lawful c found).trans higher.le

/-- Keys that are taken above the reservation do not join the ones it waits for. -/
theorem waiting_append {keys new : List α} (above : ∀ key ∈ new, r.reservedThrough < key) :
    r.waiting (keys ++ new) = r.waiting keys := by
  unfold waiting
  rw [List.filter_append]
  have outside : new.filter (fun key => decide (Above r.completedThrough key ∧ key ≤ r.reservedThrough)) = [] := by
    refine List.filter_eq_nil_iff.mpr fun key found inside => ?_
    have inside := of_decide_eq_true inside
    exact absurd inside.2 (not_le.mpr (above key found))
  rw [outside, List.append_nil]

end Reservation

/-! ### Keys in order -/

/-- Each answer lies above what was answered last, and is remembered. -/
structure Ascends (step : σ → ι → σ) (answer : σ → ι → Option α) (last : σ → Option α) : Prop where
  above : ∀ s event a, answer s event = some a → Above (last s) a ∧ last (step s event) = some a
  keeps : ∀ s event, answer s event = none → last (step s event) = last s

variable {step : σ → ι → σ} {answer : σ → ι → Option α} {last : σ → Option α}

theorem Ascends.answers_above (ascends : Ascends step answer last) (s : σ) (events : List ι) :
    ∀ a ∈ answers step answer s events, Above (last s) a := by
  induction events generalizing s with
  | nil =>
    intro a found
    cases found
  | cons event rest ih =>
    intro a found
    cases now : answer s event with
    | none =>
      rw [answers, now] at found
      have later := ih (step s event) a found
      rw [ascends.keeps s event now] at later
      exact later
    | some b =>
      obtain ⟨above, held⟩ := ascends.above s event b now
      rw [answers, now] at found
      rcases List.mem_cons.mp found with rfl | found
      · exact above
      · have later := ih (step s event) a found
        rw [held] at later
        intro f lower
        exact (above f lower).trans (later b rfl)

/-- The answers of a run strictly increase. -/
theorem Ascends.answers_increase (ascends : Ascends step answer last) (s : σ) (events : List ι) :
    (answers step answer s events).Pairwise (· < ·) := by
  induction events generalizing s with
  | nil => exact .nil
  | cons event rest ih =>
    cases now : answer s event with
    | none =>
      rw [answers, now]
      exact ih (step s event)
    | some a =>
      obtain ⟨_, held⟩ := ascends.above s event a now
      rw [answers, now]
      refine .cons (fun b found => ?_) (ih (step s event))
      have above := ascends.answers_above (step s event) rest b found
      rw [held] at above
      exact above a rfl

end HudsonSandbox.Prefixes
