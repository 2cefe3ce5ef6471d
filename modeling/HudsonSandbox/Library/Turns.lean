import Mathlib.Order.Basic

/-!
# Loops of turns

A loop takes numbered turns until one is the last or fails; what a turn meets outside may depend on its
number. A turn that is not the last has to bring the loop nearer to its end, whatever it meets.
-/

namespace HudsonSandbox.Turns
variable {σ ε : Type*} {turn : ℕ → σ → Except ε (σ × Bool)} {Inv : ℕ → σ → Prop} {left : σ → ℕ}

/-- The turns from the `n`th on; the result names the turn after the last. -/
def loop (turn : ℕ → σ → Except ε (σ × Bool)) : ℕ → ℕ → σ → Option (Except ε (σ × ℕ))
  | 0, _, _ => none
  | fuel + 1, n, s =>
    match turn n s with
    | .error e => some (.error e)
    | .ok (next, last) => if last then some (.ok (next, n + 1)) else loop turn fuel (n + 1) next

theorem loop_error {fuel n : ℕ} {s : σ} {e : ε} (failed : turn n s = .error e) :
    loop turn (fuel + 1) n s = some (.error e) := by
  rw [loop, failed]

theorem loop_last {fuel n : ℕ} {s next : σ} (ran : turn n s = .ok (next, true)) :
    loop turn (fuel + 1) n s = some (.ok (next, n + 1)) := by
  rw [loop, ran]
  rfl

theorem loop_next {fuel n : ℕ} {s next : σ} (ran : turn n s = .ok (next, false)) :
    loop turn (fuel + 1) n s = loop turn fuel (n + 1) next := by
  rw [loop, ran]
  rfl

/-- What a turn leaves, and that it is the last or gets nearer to the end. -/
def Advances (turn : ℕ → σ → Except ε (σ × Bool)) (Inv : ℕ → σ → Prop) (left : σ → ℕ) : Prop :=
  ∀ n s next last, Inv n s → turn n s = .ok (next, last) → Inv (n + 1) next ∧ (last = true ∨ left next < left s)

theorem Advances.ends (advances : Advances turn Inv left) {fuel n : ℕ} {s : σ} (start : Inv n s)
    (enough : left s < fuel) : ∃ result, loop turn fuel n s = some result := by
  induction fuel generalizing n s with
  | zero => omega
  | succ fuel ih =>
    cases ran : turn n s with
    | error e => exact ⟨_, loop_error ran⟩
    | ok found =>
      cases found with
      | mk next last =>
        obtain ⟨kept, moves⟩ := advances n s next last start ran
        cases last with
        | true => exact ⟨_, loop_last ran⟩
        | false =>
          rw [loop_next ran]
          apply ih kept
          have nearer : left next < left s := moves.resolve_left Bool.false_ne_true
          omega

/-- More fuel changes no result. -/
theorem loop_more {fuel n : ℕ} {s : σ} {result : Except ε (σ × ℕ)} (ended : loop turn fuel n s = some result) (more : ℕ) :
    loop turn (fuel + more) n s = some result := by
  induction fuel generalizing n s with
  | zero => cases ended
  | succ fuel ih =>
    rw [Nat.succ_add]
    cases ran : turn n s with
    | error e =>
      rw [loop_error ran] at ended ⊢
      exact ended
    | ok found =>
      cases found with
      | mk next last =>
        cases last with
        | true =>
          rw [loop_last ran] at ended ⊢
          exact ended
        | false =>
          rw [loop_next ran] at ended ⊢
          exact ih ended

/-- Whatever its turns meet, the loop has one result for all fuel above its measure. -/
theorem Advances.result (advances : Advances turn Inv left) {n : ℕ} {s : σ} (start : Inv n s) :
    ∃ result, ∀ fuel, left s < fuel → loop turn fuel n s = some result := by
  obtain ⟨result, ended⟩ := advances.ends start (Nat.lt_succ_self _)
  refine ⟨result, ?_⟩
  intro fuel enough
  have more := loop_more ended (fuel - (left s + 1))
  rw [Nat.succ_eq_add_one, Nat.add_sub_cancel' enough] at more
  exact more

/-- A loop that succeeds ended with a last turn, before which the invariant held. -/
theorem Advances.ended (advances : Advances turn Inv left) {fuel n m : ℕ} {s final : σ} (start : Inv n s)
    (ended : loop turn fuel n s = some (.ok (final, m))) :
    Inv m final ∧ ∃ k before, m = k + 1 ∧ Inv k before ∧ turn k before = .ok (final, true) := by
  induction fuel generalizing n s with
  | zero => cases ended
  | succ fuel ih =>
    cases ran : turn n s with
    | error e =>
      rw [loop_error ran] at ended
      cases ended
    | ok found =>
      cases found with
      | mk next last =>
        obtain ⟨kept, _⟩ := advances n s next last start ran
        cases last with
        | true =>
          rw [loop_last ran] at ended
          cases ended
          exact ⟨kept, n, s, rfl, start, ran⟩
        | false =>
          rw [loop_next ran] at ended
          exact ih kept ended

end HudsonSandbox.Turns
