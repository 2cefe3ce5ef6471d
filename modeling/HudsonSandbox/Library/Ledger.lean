import Mathlib.Order.Lattice
import Mathlib.Data.Set.Basic

/-!
# One-way ledgers

What an issuer of single-use rights promises, for keys of any type. Each key moves through its
stages in one direction: it is issued while it is still unissued, and once it has left the
active stage no step makes it active again.
-/

namespace HudsonSandbox.Ledger
variable {κ : Type*}

inductive Stage where
  | unissued | active | fenced | complete | closed
  deriving DecidableEq, Repr

def Stage.rank : Stage → ℕ
  | .unissued => 0
  | .active => 1
  | .fenced => 2
  | .complete => 3
  | .closed => 4

instance : PartialOrder Stage :=
  PartialOrder.lift Stage.rank fun a b => by cases a <;> cases b <;> decide

instance : DecidableLE Stage := fun a b => inferInstanceAs (Decidable (a.rank ≤ b.rank))

instance : DecidableLT Stage := fun a b => inferInstanceAs (Decidable (a.rank < b.rank))

theorem Stage.closed_le {stage : Stage} (top : .closed ≤ stage) : stage = .closed := by
  revert top; cases stage <;> decide

/-- One key at a time changes hands, except that fresh keys may be issued together. -/
inductive Step : (κ → Stage) → (κ → Stage) → Prop where
  | stutter {ledger : κ → Stage} : Step ledger ledger
  | issue {ledger next : κ → Stage} (keys : Set κ) (fresh : ∀ k ∈ keys, ledger k = .unissued)
      (issued : ∀ k ∈ keys, next k = .active) (frame : ∀ k ∉ keys, next k = ledger k) :
      Step ledger next
  | move {ledger next : κ → Stage} (key : κ) (owned : ledger key ≠ .unissued)
      (forward : ledger key < next key) (frame : ∀ k, k ≠ key → next k = ledger k) :
      Step ledger next

theorem Step.le {ledger next : κ → Stage} (step : Step ledger next) (k : κ) :
    ledger k ≤ next k := by
  cases step with
  | stutter => exact le_rfl
  | issue keys fresh issued frame =>
    by_cases member : k ∈ keys
    · rw [fresh k member, issued k member]; decide
    · exact (frame k member).ge
  | move key _ forward frame =>
    by_cases same : k = key
    · exact same ▸ forward.le
    · exact (frame k same).ge

end HudsonSandbox.Ledger
