import HudsonSandbox.Library.Checked
import HudsonSandbox.Library.Run

/-!
# The deadline of an allocation

One shared word: the boot time at which the allocation ends, or zero once it is fenced. It is read,
stored and swapped by several threads, each access an atomic step; only a swap that finds what was
read before changes it.
-/

namespace HudsonSandbox.Guardian
open Checked Run

namespace Deadline

/-- `convert`: the boot time at which the remaining wall time is over. -/
def convert (expires wall : ℤ) (boot : ℕ) : Except String ℕ := do
  let remaining ← okOr (checkedSub 63 expires wall) "invalid lease deadline"
  ensure (1 ≤ remaining ∧ remaining ≤ 300000) "lease must expire within 300 seconds"
  okOr (checkedAdd 64 boot remaining.toNat) "lease clock overflow"

/-- A signed word holds the wall clock, which is read as an unsigned one. -/
def tryFrom (wall : ℕ) : Except String ℤ :=
  if wall < 2 ^ 63 then .ok wall else .error "out of range integral type conversion attempted"

/-- `compare_exchange`, and whether it found the expected value. -/
def compareExchange (value prior next : ℕ) : ℕ × Bool :=
  if value = prior then (next, true) else (value, false)

def extend (value prior : ℕ) (expires : ℤ) (wall boot : ℕ) : ℕ × Except String Unit :=
  match (do
      let wall ← tryFrom wall
      let next ← convert expires wall boot
      ensure (boot < prior ∧ prior ≤ next) "expired or shortening lease"
      pure next : Except String ℕ) with
  | .error e => (value, .error e)
  | .ok next =>
    match compareExchange value prior next with
    | (value, true) => (value, .ok ())
    | (value, false) => (value, .error "lease was fenced or changed")

/-- The first step of `expire`: whether the value that was read has passed. -/
def passed (prior boot : ℕ) : Prop := prior ≠ 0 ∧ prior ≤ boot

instance (prior boot : ℕ) : Decidable (passed prior boot) := inferInstanceAs (Decidable (_ ∧ _))

end Deadline

/-- `expiring` are the values that a running `expire` has read and found passed. -/
structure Deadline where
  value : ℕ
  expiring : List ℕ

namespace Deadline

inductive Event where
  | stop
  /-- What an extension was given was read at some time before its swap. -/
  | extend (prior : ℕ) (expires : ℤ) (wall boot : ℕ)
  | read (boot : ℕ)
  | expire (prior : ℕ)

def step (s : Deadline) : Event → Deadline
  | .stop => { s with value := 0 }
  | .extend prior expires wall boot => { s with value := (extend s.value prior expires wall boot).1 }
  | .read boot => if passed s.value boot then { s with expiring := s.value :: s.expiring } else s
  | .expire prior =>
    if prior ∈ s.expiring then
      { value := (compareExchange s.value prior 0).1, expiring := s.expiring.erase prior }
    else s

/-- `Deadline::new` -/
def new (expires wall : ℤ) (boot : ℕ) : Except String Deadline := do
  let value ← convert expires wall boot
  pure { value, expiring := [] }

variable {expires wall : ℤ} {boot next value prior : ℕ}

/-! ### One access -/

/-- A conversion is exact, and it fails only where there is nothing to convert. -/
theorem convert_ok : convert expires wall boot = .ok next ↔
    1 ≤ expires - wall ∧ expires - wall ≤ 300000 ∧ boot + (expires - wall).toNat < 2 ^ 64 ∧
      next = boot + (expires - wall).toNat := by
  unfold convert
  simp only [bind_ok, okOr_ok, ensure_ok, checkedSub_some, checkedAdd_some]
  constructor
  · rintro ⟨_, ⟨_, rfl⟩, _, ⟨positive, bounded⟩, fits, same⟩
    exact ⟨positive, bounded, fits, same⟩
  · rintro ⟨positive, bounded, fits, same⟩
    exact ⟨_, ⟨⟨by omega, by omega⟩, rfl⟩, (), ⟨positive, bounded⟩, fits, same⟩

theorem tryFrom_ok {wall : ℕ} {signed : ℤ} (read : tryFrom wall = .ok signed) :
    wall < 2 ^ 63 ∧ signed = wall := by
  unfold tryFrom at read
  split at read
  next small => exact ⟨small, (Except.ok.inj read).symm⟩
  · cases read

/-- What an extension does to the word, and when. -/
inductive Extends (value prior : ℕ) (expires : ℤ) (wall boot : ℕ) : ℕ × Except String Unit → Prop where
  | refused (e : String) : Extends value prior expires wall boot (value, .error e)
  | extended (next : ℕ) (small : wall < 2 ^ 63) (found : value = prior) (live : boot < prior)
      (longer : prior ≤ next) (exact : convert expires wall boot = .ok next) :
      Extends value prior expires wall boot (next, .ok ())

theorem extend_extends (value prior : ℕ) (expires : ℤ) (wall boot : ℕ) :
    Extends value prior expires wall boot (extend value prior expires wall boot) := by
  unfold extend
  split
  · exact .refused _
  next next checked =>
    obtain ⟨signed, read, checked⟩ := bind_ok.mp checked
    obtain ⟨small, rfl⟩ := tryFrom_ok read
    obtain ⟨converted, exact, checked⟩ := bind_ok.mp checked
    obtain ⟨ordered, checked⟩ := seq_ok.mp checked
    obtain rfl := pure_ok.mp checked
    obtain ⟨live, longer⟩ := ensure_ok.mp ordered
    unfold compareExchange
    by_cases found : value = prior
    · rw [if_pos found]
      exact .extended _ small found live longer exact
    · rw [if_neg found]
      exact .refused _

/-! ### Runs -/

/-- Zero stays zero, and any other value only grows until it is zero. -/
def Follows (before after : ℕ) : Prop := after = 0 ∨ before ≠ 0 ∧ before ≤ after

theorem Follows.refl (value : ℕ) : Follows value value := by
  unfold Follows
  omega

theorem Follows.trans {a b c : ℕ} (first : Follows a b) (second : Follows b c) : Follows a c := by
  unfold Follows at *
  omega

theorem step_follows (s : Deadline) (event : Event) : Follows s.value (step s event).value := by
  cases event with
  | stop => exact .inl rfl
  | extend prior expires wall boot =>
    have extends_ := extend_extends s.value prior expires wall boot
    change Follows s.value (extend s.value prior expires wall boot).1
    generalize extend s.value prior expires wall boot = result at extends_
    cases extends_ with
    | refused => exact .refl _
    | extended next _ found live longer =>
      refine .inr ⟨?_, ?_⟩
      · omega
      · exact found.le.trans longer
  | read boot =>
    rw [step]
    split
    · exact .refl _
    · exact .refl _
  | expire prior =>
    rw [step]
    split
    · change Follows s.value (compareExchange s.value prior 0).1
      unfold compareExchange
      by_cases found : s.value = prior
      · rw [if_pos found]
        exact .inl rfl
      · rw [if_neg found]
        exact .refl _
    · exact .refl _

theorem run_follows (s : Deadline) (events : List Event) : Follows s.value (run step s events).value := by
  induction events generalizing s with
  | nil => exact .refl _
  | cons event rest ih => exact (step_follows s event).trans (ih (step s event))

/-- Over every interleaving a fenced deadline stays fenced and a live one never goes back. An
extension succeeds only while the deadline it replaces lies ahead, is exact, and reaches no further
than the lease allows from the time it was given. -/
theorem deadline_runs (s : Deadline) (events : List Event) :
    let now := run step s events
    (s.value = 0 → now.value = 0) ∧ (now.value ≠ 0 → s.value ≤ now.value) ∧
      (∀ prior expires wall boot, (extend now.value prior expires wall boot).2 = .ok () →
        now.value = prior ∧ boot < now.value ∧
          now.value ≤ (extend now.value prior expires wall boot).1 ∧
          (extend now.value prior expires wall boot).1 ≤ boot + 300000 ∧
          (extend now.value prior expires wall boot).1 < 2 ^ 64 ∧
          ((extend now.value prior expires wall boot).1 : ℤ) = boot + (expires - wall)) ∧
      ∀ expires wall boot next, convert expires wall boot = .ok next ↔
        1 ≤ expires - wall ∧ expires - wall ≤ 300000 ∧ boot + (expires - wall).toNat < 2 ^ 64 ∧
          next = boot + (expires - wall).toNat := by
  intro now
  have follows : Follows s.value now.value := run_follows s events
  unfold Follows at follows
  refine ⟨by omega, by omega, ?_, fun _ _ _ _ => convert_ok⟩
  intro prior expires wall boot succeeded
  have extends_ := extend_extends now.value prior expires wall boot
  generalize extend now.value prior expires wall boot = result at extends_ succeeded
  cases extends_ with
  | refused => cases succeeded
  | extended next _ found live longer exact =>
    obtain ⟨positive, bounded, fits, same⟩ := convert_ok.mp exact
    exact ⟨found, found ▸ live, found.le.trans longer, by omega, by omega, by omega⟩

end Deadline
end HudsonSandbox.Guardian
