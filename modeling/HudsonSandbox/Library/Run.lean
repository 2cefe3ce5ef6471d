import Mathlib.Order.Basic

/-!
# Runs of a transition function

A system is a function from a state and an event to the next state; whatever the environment
decides stands in the event. The rules here lift what one step keeps to every run.
-/

namespace HudsonSandbox.Run
variable {σ ι α β : Type*} {step : σ → ι → σ} {Inv : σ → Prop}

def run (step : σ → ι → σ) (s : σ) (events : List ι) : σ := events.foldl step s

@[simp] theorem run_nil (s : σ) : run step s [] = s := rfl

@[simp] theorem run_cons (s : σ) (event : ι) (rest : List ι) :
    run step s (event :: rest) = run step (step s event) rest := rfl

theorem run_append (s : σ) (before after : List ι) :
    run step s (before ++ after) = run step (run step s before) after :=
  List.foldl_append

/-- Every step of the run satisfies a condition on its own source state and event. -/
def Along (step : σ → ι → σ) (condition : σ → ι → Prop) : σ → List ι → Prop
  | _, [] => True
  | s, event :: rest => condition s event ∧ Along step condition (step s event) rest

instance Along.decidable {condition : σ → ι → Prop} [∀ s event, Decidable (condition s event)] :
    ∀ (s : σ) (events : List ι), Decidable (Along step condition s events)
  | _, [] => .isTrue trivial
  | s, event :: rest =>
    have : Decidable (Along step condition (step s event) rest) := Along.decidable (step s event) rest
    inferInstanceAs (Decidable (condition s event ∧ Along step condition (step s event) rest))

theorem along_append {condition : σ → ι → Prop} {s : σ} {before after : List ι} :
    Along step condition s (before ++ after) ↔
      Along step condition s before ∧ Along step condition (run step s before) after := by
  induction before generalizing s with
  | nil => simp [Along]
  | cons event rest ih => simp [Along, ih, and_assoc]

/-- A condition that every step satisfies holds along every run. -/
theorem along_of {condition : σ → ι → Prop} (always : ∀ s event, condition s event) {s : σ}
    {events : List ι} : Along step condition s events := by
  induction events generalizing s with
  | nil => trivial
  | cons event rest ih => exact ⟨always s event, ih⟩

theorem run_guarded {condition : σ → ι → Prop}
    (keeps : ∀ s event, Inv s → condition s event → Inv (step s event)) {s : σ} {events : List ι}
    (start : Inv s) (met : Along step condition s events) : Inv (run step s events) := by
  induction events generalizing s with
  | nil => exact start
  | cons event rest ih => exact ih (keeps s event start met.1) met.2

theorem run_invariant (keeps : ∀ s event, Inv s → Inv (step s event)) {s : σ} {events : List ι}
    (start : Inv s) : Inv (run step s events) := by
  induction events generalizing s with
  | nil => exact start
  | cons event rest ih => exact ih (keeps s event start)

/-- A measure that no step lowers is never lowered by a run. -/
theorem run_mono [Preorder α] {measure : σ → α}
    (keeps : ∀ s event, Inv s → Inv (step s event))
    (grows : ∀ s event, Inv s → measure s ≤ measure (step s event)) {s : σ} {events : List ι}
    (start : Inv s) : measure s ≤ measure (run step s events) := by
  induction events generalizing s with
  | nil => exact le_rfl
  | cons event rest ih => exact (grows s event start).trans (ih (keeps s event start))

/-! ### Answers -/

/-- What the steps of a run answered, in order; a step may answer nothing. -/
def answers (step : σ → ι → σ) (answer : σ → ι → Option β) : σ → List ι → List β
  | _, [] => []
  | s, event :: rest => (answer s event).toList ++ answers step answer (step s event) rest

section Answers
variable {answer : σ → ι → Option β} {Done : σ → Prop}

theorem answers_append {s : σ} {before after : List ι} :
    answers step answer s (before ++ after) =
      answers step answer s before ++ answers step answer (run step s before) after := by
  induction before generalizing s with
  | nil => rfl
  | cons event rest ih => simp [answers, ih]

/-- A lasting mark under which no step answers. -/
structure Bars (step : σ → ι → σ) (Inv : σ → Prop) (answer : σ → ι → Option β) (Done : σ → Prop) :
    Prop where
  keeps : ∀ s event, Inv s → Inv (step s event)
  lasts : ∀ s event, Inv s → Done s → Done (step s event)
  fresh : ∀ s event a, Inv s → answer s event = some a → ¬Done s

theorem Bars.run_lasts (bars : Bars step Inv answer Done) {s : σ} {events : List ι} (start : Inv s)
    (done : Done s) : Done (run step s events) := by
  induction events generalizing s with
  | nil => exact done
  | cons event rest ih => exact ih (bars.keeps s event start) (bars.lasts s event start done)

theorem Bars.answers_nil (bars : Bars step Inv answer Done) {s : σ} {events : List ι}
    (start : Inv s) (done : Done s) : answers step answer s events = [] := by
  induction events generalizing s with
  | nil => rfl
  | cons event rest ih =>
    have silent : answer s event = none := by
      cases found : answer s event with
      | none => rfl
      | some a => exact absurd done (bars.fresh s event a start found)
    rw [answers, silent, ih (bars.keeps s event start) (bars.lasts s event start done)]
    rfl

/-- A mark that every answer leaves, too. -/
structure Marks (step : σ → ι → σ) (Inv : σ → Prop) (answer : σ → ι → Option β) (Done : σ → Prop) :
    Prop extends Bars step Inv answer Done where
  leaves : ∀ s event a, Inv s → answer s event = some a → Done (step s event)

/-- A run answers at most once. -/
theorem Marks.answers_le_one (marks : Marks step Inv answer Done) {s : σ} {events : List ι}
    (start : Inv s) : (answers step answer s events).length ≤ 1 := by
  induction events generalizing s with
  | nil => exact Nat.zero_le 1
  | cons event rest ih =>
    have next := marks.keeps s event start
    cases found : answer s event with
    | none =>
      rw [answers, found]
      exact ih next
    | some a =>
      have later : answers step answer (step s event) rest = [] :=
        marks.answers_nil next (marks.leaves s event a start found)
      rw [answers, found, later]
      exact Nat.le_refl 1

/-- Where the mark does not stand, no run has answered. -/
theorem Marks.unanswered (marks : Marks step Inv answer Done) {s : σ} {events : List ι} (start : Inv s)
    (unmarked : ¬Done (run step s events)) : answers step answer s events = [] := by
  induction events generalizing s with
  | nil => rfl
  | cons event rest ih =>
    have next := marks.keeps s event start
    cases found : answer s event with
    | none =>
      rw [answers, found]
      exact ih next unmarked
    | some a => exact absurd (marks.run_lasts next (marks.leaves s event a start found)) unmarked

end Answers
end HudsonSandbox.Run
