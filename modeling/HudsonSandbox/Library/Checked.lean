import Mathlib.Algebra.Order.Ring.Nat
import Mathlib.Data.UInt

/-!
# Checked computations

Small rules for fallible code written over `Except`: sequencing, a single guard, and the
overflow-checked addition of a machine word.
-/

namespace HudsonSandbox.Checked
universe u v
variable {ε : Type u} {α β : Type v}

/-- Fail with `error` unless the condition holds. -/
def ensure (condition : Prop) [Decidable condition] (error : ε) : Except ε Unit :=
  if condition then .ok () else .error error

@[simp] theorem ensure_ok {condition : Prop} [Decidable condition] {error : ε} {u : Unit} :
    ensure condition error = .ok u ↔ condition := by
  unfold ensure
  split <;> simp_all

theorem ensure_error {condition : Prop} [Decidable condition] {error other : ε} :
    ensure condition error = .error other ↔ ¬condition ∧ error = other := by
  unfold ensure
  split <;> simp_all

/-- Read a missing value as an error. -/
def okOr (value : Option α) (error : ε) : Except ε α :=
  match value with
  | some a => .ok a
  | none => .error error

@[simp] theorem okOr_ok {value : Option α} {error : ε} {a : α} :
    okOr value error = .ok a ↔ value = some a := by
  cases value <;> simp [okOr]

theorem bind_ok {x : Except ε α} {f : α → Except ε β} {b : β} :
    (x >>= f) = .ok b ↔ ∃ a, x = .ok a ∧ f a = .ok b := by
  cases x <;> simp [bind, Except.bind]

theorem seq_ok {γ : Type} {x : Except ε Unit} {y : Except ε γ} {b : γ} :
    (do x; y) = .ok b ↔ x = .ok () ∧ y = .ok b := by
  cases x <;> simp [bind, Except.bind]

theorem seq_error {γ : Type} {x : Except ε Unit} {y : Except ε γ} {error : ε} :
    (do x; y) = .error error ↔ x = .error error ∨ x = .ok () ∧ y = .error error := by
  cases x <;> simp [bind, Except.bind]

theorem seq_of_ok {γ : Type} {x : Except ε Unit} {y : Except ε γ} (passed : x = .ok ()) : (do x; y) = y := by
  rw [passed]; rfl

theorem pure_ok {a b : α} : (pure a : Except ε α) = .ok b ↔ a = b := by
  simp [pure, Except.pure]

theorem mapError_ok {α ε δ : Type*} {x : Except ε α} {f : ε → δ} {a : α} :
    x.mapError f = .ok a ↔ x = .ok a := by
  cases x <;> simp [Except.mapError]

theorem map_ok {x : Except ε α} {f : α → β} {b : β} :
    x.map f = .ok b ↔ ∃ a, x = .ok a ∧ f a = b := by
  cases x <;> simp [Except.map]

/-- Whatever the computation fails with is of a kind. -/
structure Raises (P : ε → Prop) (x : Except ε α) : Prop where
  kind : ∀ error, x = .error error → P error

section Raises
variable {P : ε → Prop}

theorem Raises.ensure {condition : Prop} [Decidable condition] {error : ε} (kind : P error) :
    Raises P (ensure condition error) := by
  constructor
  intro other failed
  rw [← (ensure_error.mp failed).2]
  exact kind

theorem Raises.okOr {value : Option α} {error : ε} (kind : P error) : Raises P (okOr value error) := by
  constructor
  intro other failed
  cases value with
  | some a => cases failed
  | none =>
    cases failed
    exact kind

theorem Raises.mapError {δ : Type} {x : Except δ α} {f : δ → ε} (kind : ∀ error, P (f error)) :
    Raises P (x.mapError f) := by
  constructor
  intro error failed
  cases x with
  | ok a => cases failed
  | error other =>
    cases failed
    exact kind other

theorem Raises.pure (a : α) : Raises P (Pure.pure a : Except ε α) := by
  constructor
  intro error failed
  cases failed

theorem Raises.bind {x : Except ε α} {f : α → Except ε β} (first : Raises P x) (rest : ∀ a, Raises P (f a)) :
    Raises P (x >>= f) := by
  constructor
  intro error failed
  cases x with
  | error other =>
    cases failed
    exact first.kind error rfl
  | ok a => exact (rest a).kind error failed

theorem Raises.seq {γ : Type} {x : Except ε Unit} {y : Except ε γ} (first : Raises P x) (rest : Raises P y) :
    Raises P (do x; y) := by
  constructor
  intro error failed
  rcases seq_error.mp failed with failed | ⟨_, failed⟩
  · exact first.kind error failed
  · exact rest.kind error failed

end Raises

/-- A transaction commits its result or leaves the state as it was. -/
def commit (s : α) : Except ε α → α
  | .ok next => next
  | .error _ => s

theorem commit_keeps {P : α → Prop} {s : α} {result : Except ε α} (start : P s)
    (keeps : ∀ next, result = .ok next → P next) : P (commit s result) := by
  cases result with
  | ok next => exact keeps next rfl
  | error error => exact start

/-- A transaction that changed the state committed. -/
theorem commit_changed {P : α → Prop} {s : α} (result : Except ε α) (changed : commit s result ≠ s)
    (holds : ∀ next, result = .ok next → P next) : P (commit s result) := by
  cases result with
  | ok next => exact holds next rfl
  | error error => exact absurd rfl changed

/-- Addition that refuses to leave a word of `width` bits. -/
def checkedAdd (width n k : ℕ) : Option ℕ :=
  if n + k < 2 ^ width then some (n + k) else none

theorem checkedAdd_eq {width n k m : ℕ} (same : checkedAdd width n k = some m) : m = n + k := by
  unfold checkedAdd at same
  split at same <;> simp_all

theorem checkedAdd_some {width n k m : ℕ} :
    checkedAdd width n k = some m ↔ n + k < 2 ^ width ∧ m = n + k := by
  unfold checkedAdd
  split
  · simp_all [eq_comm]
  · simp_all

/-- Subtraction that refuses to leave a signed word of `width + 1` bits. -/
def checkedSub (width : ℕ) (a b : ℤ) : Option ℤ :=
  if -2 ^ width ≤ a - b ∧ a - b < 2 ^ width then some (a - b) else none

theorem checkedSub_some {width : ℕ} {a b c : ℤ} :
    checkedSub width a b = some c ↔ (-2 ^ width ≤ a - b ∧ a - b < 2 ^ width) ∧ c = a - b := by
  unfold checkedSub
  split
  · simp_all [eq_comm]
  · simp_all

end HudsonSandbox.Checked
