import HudsonSandbox.Protocol.GuestModel

/-!
# Retirement barriers

A barrier closes an inclusive prefix of the operation identities of one guest boot. It says
nothing about how the operations below it ended.
-/

namespace HudsonSandbox.History
open Checked GuestModel

inductive Domain where
  | commands | files
  deriving DecidableEq, Repr

structure Barrier where
  version : ℕ
  context : Context
  domain : Domain
  through : OperationId
  deriving DecidableEq

namespace Barrier

def validate (self : Barrier) (context : Context) (domain : Domain) : Except String Unit := do
  ensure (self.version = 1 ∧ self.domain = domain ∧ self.context = context)
    "history barrier ownership mismatch"
  ensure (0 < context.generation ∧ context.bootId ≠ "" ∧ context.bootId.utf8ByteSize ≤ 64)
    "invalid history context"
  ensure (self.through.uuid.getVersionNum = 7 ∧ self.through.uuid.getVariant = .rfc4122)
    "invalid history barrier identity"

def covers (self : Barrier) (id : OperationId) : Prop := id ≤ self.through

instance (self : Barrier) (id : OperationId) : Decidable (self.covers id) :=
  inferInstanceAs (Decidable (id ≤ self.through))

theorem validate_ok {barrier : Barrier} {context : Context} {domain : Domain}
    (valid : barrier.validate context domain = .ok ()) :
    barrier.context = context ∧ barrier.domain = domain := by
  obtain ⟨owner, _⟩ := seq_ok.mp valid
  obtain ⟨_, domain, context⟩ := ensure_ok.mp owner
  exact ⟨context, domain⟩

end Barrier
end HudsonSandbox.History
