import HudsonSandbox.History.Rows

/-!
# Retirement on the live host

A controller claims one domain of an allocation, reserves a contiguous prefix of ended operations
before any request, and completes exactly that prefix when its host acknowledged it. A transaction
has one time, the one at which its last statement checks the claim again.
-/

namespace HudsonSandbox.History
open Checked GuestModel Command LiveOutput Store Uploads Supervisor SupervisorFiles Files FileSources
  Artifacts Prefixes

structure Claim where
  allocationId : AllocationId
  domain : Domain
  revision : ℤ
  expiresAt : Time
  deriving DecidableEq

inductive Preparation where
  | binding (claim : Claim) (request : LeaseInspection)
  | retire (claim : Claim) (request : HistoryRequest)

def owner (a : PinnedAllocation) (claim : Claim) : LeaseOwnership :=
  leaseOwner a claim.revision (ms claim.expiresAt)

/-- An observation belongs to this short claim, with bounded clock skew. -/
def fresh (observed : ℤ) (claim : Claim) (now : Time) : Except HistoryError Unit :=
  ensure (0 < observed ∧ observed ≤ ms now + 5000 ∧ observed ≤ ms claim.expiresAt ∧
    ms now - 10000 ≤ observed) .evidence

namespace AllocationRows
section Live
variable (enc : Encodings)

def setLive (s : AllocationRows) (domain : Domain) (h : HistoryRow) : AllocationRows :=
  { s with live := Function.update s.live domain (some h) }

def lock (s : AllocationRows) (claim : Claim) (now : Time) : Except HistoryError HistoryRow := do
  ensure (claim.allocationId = s.allocation.id) .query
  ensure (s.view.Live s.allocation now) .lostClaim
  let h ← okOr (s.live claim.domain) .lostClaim
  ensure (h.claimRevision = claim.revision ∧ h.leaseExpiresAt = some claim.expiresAt ∧
    Pending h.leaseExpiresAt now) .lostClaim
  pure h

def historyRequest (s : AllocationRows) (h : HistoryRow) (claim : Claim) (guest : GuestModel.Context) :
    Except HistoryError HistoryRequest := do
  ensure (guest.allocationId = claim.allocationId ∧ guest.generation = s.allocation.generation) .evidence
  let barrier : Barrier :=
    { version := 1, context := guest, domain := claim.domain, through := h.reservedThrough }
  (barrier.validate barrier.context claim.domain).mapError fun _ => .evidence
  pure { ownership := some (owner s.allocation claim), barrier := some barrier }

def validatePrefix (s : AllocationRows) (h : HistoryRow) (claim : Claim) (guest : GuestModel.Context)
    (allowSimulated : Bool) : Except HistoryError Unit := do
  let rows := select (s.entries enc claim.domain allowSimulated) h.completedThrough
    (some h.reservedThrough) (claim.domain.max + 1)
  ensure (Spans rows claim.domain h.reservedThrough) .evidence
  rows.forM fun e => do
    let found ← okOr (← e.found) .evidence
    ensure (∀ c ∈ found, c = guest) .evidence

/-- The reservation of a candidate: the pending one as it stands, or a new one above what was
completed; none where nothing ended. -/
def reservePrefix (s : AllocationRows) (domain : Domain) (allowSimulated : Bool) :
    Except HistoryError (Option HistoryRow) :=
  match s.live domain with
  | none => do
    let (through, guest) ← extend (select (s.entries enc domain allowSimulated) none none domain.max) none
    pure (through.map fun through =>
      { reservedThrough := through, completedThrough := none, claimRevision := 0,
        leaseExpiresAt := none, nextRetryAt := none, context := guest, request := none,
        completion := none, completedAt := none })
  | some h => do
    ensure (h.completedThrough ≠ none → s.completed domain = h.completedThrough) .evidence
    if h.Unfinished then pure (some h)
    else do
      let (through, guest) ← extend
        (select (s.entries enc domain allowSimulated) h.completedThrough none domain.max) h.context
      pure (through.map fun through =>
        { h with reservedThrough := through, context := guest, request := none })

/-- The claim on a reserved row, with the request that goes to the host. -/
def claimReserved (s : AllocationRows) (h : HistoryRow) (domain : Domain) (lease : ℤ)
    (allowSimulated : Bool) (now : Time) : Except HistoryError (HistoryRow × Preparation) := do
  let expires := now + seconds lease
  let h : HistoryRow :=
    { h with
      claimRevision := h.claimRevision + 1
      leaseExpiresAt := some expires
      nextRetryAt := none
      request := none }
  let claim : Claim :=
    { allocationId := s.allocation.id, domain, revision := h.claimRevision, expiresAt := expires }
  match h.context with
  | none => pure (h, .binding claim { ownership := some (owner s.allocation claim) })
  | some guest => do
    s.validatePrefix enc h claim guest allowSimulated
    let request ← s.historyRequest h claim guest
    ensure (s.view.Live s.allocation now ∧ now < expires) .lostClaim
    pure ({ h with request := some request }, .retire claim request)

def prepareCandidate (s : AllocationRows) (domain : Domain) (lease : ℤ) (allowSimulated : Bool)
    (now : Time) : Except HistoryError (Option (HistoryRow × Preparation)) := do
  match ← s.reservePrefix enc domain allowSimulated with
  | none => pure none
  | some h => do
    let claimed ← s.claimReserved enc h domain lease allowSimulated now
    pure (some claimed)

/-- The allocation that a live scan of its host selects. -/
def Candidate (s : AllocationRows) (host : HostId) (epoch : ℤ) (domain : Domain) (now : Time) : Prop :=
  s.allocation.hostId = host ∧ s.allocation.supervisorEpoch = epoch ∧ s.view.hostEpoch = epoch ∧
    s.view.status = .running ∧ Pending s.view.leaseExpiresAt now ∧
    ∀ h ∈ s.live domain, Elapsed h.leaseExpiresAt now ∧ Elapsed h.nextRetryAt now

instance (s : AllocationRows) (host : HostId) (epoch : ℤ) (domain : Domain) (now : Time) :
    Decidable (s.Candidate host epoch domain now) :=
  inferInstanceAs (Decidable (_ ∧ _ ∧ _ ∧ _ ∧ _ ∧ ∀ h ∈ s.live domain, _))

/-- Invalid evidence is put off, so that it starves no other allocation. -/
def retryLive (s : AllocationRows) (domain : Domain) (now : Time) : AllocationRows :=
  match s.live domain with
  | none => s
  | some h => s.setLive domain { h with nextRetryAt := some (now + seconds 5) }

/-- `claim_history`, as far as it concerns this allocation. -/
def claimHistory (s : AllocationRows) (host : HostId) (epoch : ℤ) (domain : Domain) (lease : ℤ)
    (allowSimulated : Bool) (now : Time) : Except HistoryError (AllocationRows × Option Preparation) := do
  ensure ((1 ≤ lease ∧ lease ≤ 300) ∧ 0 < epoch) .policy
  if ¬s.Candidate host epoch domain now then pure (s, none)
  else
    match s.prepareCandidate enc domain lease allowSimulated now with
    | .ok (some (h, preparation)) => pure (s.setLive domain h, some preparation)
    | .ok none => pure (s, none)
    | .error .evidence => pure (s.retryLive domain now, none)
    | .error error => .error error

def bindHistory (s : AllocationRows) (claim : Claim) (observation : HistoryBindingObservation)
    (allowSimulated : Bool) (now : Time) : Except HistoryError (AllocationRows × HistoryRequest) := do
  let h ← s.lock claim now
  ensure ((observation.simulated = true → allowSimulated = true) ∧
    observation.request = some { ownership := some (owner s.allocation claim) }) .evidence
  fresh observation.observedUnixMs claim now
  let guest ← okOr observation.context .evidence
  ensure (∀ saved ∈ h.context, saved = guest) .evidence
  s.validatePrefix enc h claim guest allowSimulated
  let request ← s.historyRequest h claim guest
  pure (s.setLive claim.domain { h with context := some guest, request := some request }, request)

/-- Only this exact acknowledgement promotes the reserved prefix to completed. -/
def completeHistory (s : AllocationRows) (claim : Claim) (observation : HistoryObservation)
    (allowSimulated : Bool) (now : Time) : Except HistoryError AllocationRows := do
  let h ← s.lock claim now
  let guest ← okOr h.context .evidence
  s.validatePrefix enc h claim guest allowSimulated
  let expected ← s.historyRequest h claim guest
  ensure (h.request = some expected ∧ observation.request = expected ∧
    (observation.simulated = true → allowSimulated = true) ∧
    some observation.completed = expected.barrier) .evidence
  fresh observation.observedUnixMs claim now
  pure (s.setLive claim.domain
    { h with
      completedThrough := some h.reservedThrough
      completion := some observation
      completedAt := some now
      leaseExpiresAt := none
      nextRetryAt := none })

def deferHistory (s : AllocationRows) (claim : Claim) (now : Time) : Except HistoryError AllocationRows := do
  let h ← s.lock claim now
  pure (s.setLive claim.domain { h with leaseExpiresAt := none, nextRetryAt := some (now + seconds 5) })

end Live
end AllocationRows
end HudsonSandbox.History
