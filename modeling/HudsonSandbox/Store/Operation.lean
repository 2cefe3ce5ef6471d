import HudsonSandbox.Protocol.Ids
import Mathlib.Data.Int.Notation

/-!
# Operation rows

The columns of `operations` that every controller transaction reads and writes: the status, the
claim a controller holds on the row, and the retry bookkeeping. Kind-specific rows extend it.
-/

namespace HudsonSandbox.Store

/-- Microseconds since the Unix epoch, the resolution of a stored timestamp. -/
abbrev Time := ℤ

/-- Whole milliseconds of a timestamp. -/
def ms (t : Time) : ℤ := t / 1000

def seconds (n : ℤ) : ℤ := n * 1000000

/-- A reading of the database's own clock, which is well past the epoch. -/
abbrev Clock := { t : Time // seconds 10 < t }

/-- `column IS NULL OR column <= clock_timestamp()`. -/
def Elapsed (column : Option Time) (now : Time) : Prop := ∀ t ∈ column, t ≤ now

/-- `column > clock_timestamp()`; a NULL column compares to NULL, which no row passes. -/
def Pending (column : Option Time) (now : Time) : Prop := ∃ t ∈ column, now < t

instance (column : Option Time) (now : Time) : Decidable (Elapsed column now) :=
  inferInstanceAs (Decidable (∀ t ∈ column, t ≤ now))

instance (column : Option Time) (now : Time) : Decidable (Pending column now) :=
  inferInstanceAs (Decidable (∃ t ∈ column, now < t))

/-- `abs(clock_timestamp() - observed) <= 10 seconds`, on the observer's milliseconds. -/
def Fresh (now : Time) (observedUnixMs : ℤ) : Prop :=
  now - observedUnixMs * 1000 ≤ seconds 10 ∧ observedUnixMs * 1000 - now ≤ seconds 10

instance (now : Time) (observedUnixMs : ℤ) : Decidable (Fresh now observedUnixMs) :=
  inferInstanceAs (Decidable (_ ∧ _))

/-- What was observed within seconds of a late clock was observed after the epoch. -/
theorem Fresh.pos {now : Time} {observed : ℤ} (fresh : Fresh now observed) (late : seconds 10 < now) :
    0 < observed := by
  have near := fresh.1
  simp only [seconds, Time] at near late
  omega

inductive Kind where
  | create | execute | destroy | cancel | fileWrite
  deriving DecidableEq, Repr

inductive Status where
  | queued | running | succeeded | failed | cancelled | unknown
  deriving DecidableEq, Repr

def Status.Terminal (status : Status) : Prop :=
  status = .succeeded ∨ status = .failed ∨ status = .cancelled

instance (status : Status) : Decidable status.Terminal := inferInstanceAs (Decidable (_ ∨ _))

/-- A row a controller may still work on: claimed or of unknown outcome. -/
def Status.Live (status : Status) : Prop := status = .running ∨ status = .unknown

instance (status : Status) : Decidable status.Live := inferInstanceAs (Decidable (_ ∨ _))

theorem Status.not_terminal_of_live {status : Status} (live : status.Live) : ¬status.Terminal := by
  rcases live with rfl | rfl <;> decide

inductive DispatchError where
  | invalidResources | lostClaim | conflict | unauthorized | imageDenied | hostCompatibility
  | hostUnavailable | badEvidence | simulationDenied | invalidData | query
  deriving DecidableEq, Repr

structure Operation where
  id : OperationId
  projectId : ProjectId
  sandboxId : SandboxId
  kind : Kind
  status : Status
  claimRevision : ℤ
  leaseExpiresAt : Option Time
  nextRetryAt : Option Time
  attemptCount : ℤ
  completedAt : Option Time
  deriving DecidableEq, Repr

structure Claim where
  operationId : OperationId
  revision : ℤ
  deriving DecidableEq, Repr

namespace Operation

/-- The row guard every fenced update repeats in its WHERE clause. -/
def Fenced (op : Operation) (claim : Claim) (now : Time) : Prop :=
  op.id = claim.operationId ∧ op.claimRevision = claim.revision ∧ Pending op.leaseExpiresAt now ∧
    op.status.Live

instance (op : Operation) (claim : Claim) (now : Time) : Decidable (op.Fenced claim now) :=
  inferInstanceAs (Decidable (_ ∧ _))

/-- The candidate row of `claim_next`, apart from what one kind adds to it. -/
def Claimable (op : Operation) (now : Time) : Prop :=
  ¬op.status.Terminal ∧ Elapsed op.leaseExpiresAt now ∧ Elapsed op.nextRetryAt now

instance (op : Operation) (now : Time) : Decidable (op.Claimable now) :=
  inferInstanceAs (Decidable (_ ∧ _))

/-- `claim_next`: take the row over and raise its revision in one statement. -/
def claimNext (op : Operation) (lease : ℤ) (now : Time) : Operation :=
  { op with
    claimRevision := op.claimRevision + 1
    leaseExpiresAt := some (now + seconds lease)
    status := if op.status = .queued then .running else op.status
    nextRetryAt := none }

def renewClaim (op : Operation) (lease : ℤ) (now : Time) : Operation :=
  { op with leaseExpiresAt := some (now + seconds lease) }

def deferClaim (op : Operation) (delay : ℤ) (now : Time) : Operation :=
  { op with leaseExpiresAt := none, nextRetryAt := some (now + seconds delay) }

end Operation

inductive AllocationStatus where
  | reserved | running | releasing | released
  deriving DecidableEq, Repr

/-- The columns of `allocations` that never change. -/
structure Allocation where
  id : AllocationId
  projectId : ProjectId
  sandboxId : SandboxId
  hostId : HostId
  generation : ℤ
  supervisorEpoch : ℤ
  deriving DecidableEq, Repr

end HudsonSandbox.Store
