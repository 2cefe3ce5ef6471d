import HudsonSandbox.History.Coordinator

/-!
# Retirement after release

Claims on the domains of a released allocation, which any later epoch of its host may serve. The
release schedules their verification and never proves it.
-/

namespace HudsonSandbox.History
open Checked GuestModel Command LiveOutput Store Uploads Supervisor SupervisorFiles Files FileSources
  Artifacts Prefixes

structure ReleasedClaim where
  claim : Claim
  reportingEpoch : ℤ
  deriving DecidableEq

structure ReleasedPreparation where
  claim : ReleasedClaim
  request : ReleasedHistoryRequest

namespace AllocationRows
section Released
variable (enc : Encodings)

def setReleased (s : AllocationRows) (domain : Domain) (h : ReleasedRow) : AllocationRows :=
  { s with released := Function.update s.released domain (some h) }

/-- The host that reports now, about an allocation that is released and not retired. -/
def Reporting (s : AllocationRows) (epoch : ℤ) : Prop :=
  s.view.status = .released ∧ s.view.releasedAt ≠ none ∧ s.retired = false ∧
    s.allocation.supervisorEpoch ≤ epoch ∧ s.view.hostEpoch = epoch

instance (s : AllocationRows) (epoch : ℤ) : Decidable (s.Reporting epoch) :=
  inferInstanceAs (Decidable (_ ∧ _))

def lockReleased (s : AllocationRows) (c : ReleasedClaim) (now : Time) :
    Except HistoryError ReleasedRow := do
  ensure (c.claim.allocationId = s.allocation.id) .query
  let h ← okOr (s.released c.claim.domain) .lostClaim
  ensure (h.claimRevision = c.claim.revision ∧ h.reportingEpoch = c.reportingEpoch ∧
    h.leaseExpiresAt = some c.claim.expiresAt ∧ Pending h.leaseExpiresAt now ∧
    s.Reporting h.reportingEpoch) .lostClaim
  pure h

def releasedRequest (s : AllocationRows) (h : ReleasedRow) (c : ReleasedClaim) :
    Except HistoryError ReleasedHistoryRequest := do
  let _ ← (advanceOperationId h.reservedThrough none).mapError fun _ => HistoryError.evidence
  pure { ownership := some (owner s.allocation c.claim), reportingEpoch := c.reportingEpoch,
         domain := some c.claim.domain, through := some h.reservedThrough }

/-- Where the retirement of a released domain goes on: after its own acknowledged prefix, or after
the one that the live host acknowledged. -/
def releasedFloor (s : AllocationRows) (domain : Domain) : Except HistoryError (Option OperationId) :=
  match (s.released domain).bind fun h => h.completedThrough with
  | some completed => do
    ensure (s.verifiedReleased domain = some completed) .evidence
    pure (some completed)
  | none => do
    let verified := s.verifiedLive domain
    ensure (((s.live domain).bind fun h => h.completedThrough) = verified ∧
      ∀ h ∈ s.released domain, h.startAfter = verified) .evidence
    pure verified

/-- Nothing but the frozen guest was found in the prefix. -/
def frozenGuest : List Entry → Option GuestModel.Context → Except HistoryError (Option GuestModel.Context)
  | [], guest => pure guest
  | e :: rest, guest => do
    let found ← okOr (← e.found) .evidence
    ensure (∀ c ∈ found, ∀ known ∈ guest, known = c) .evidence
    frozenGuest rest (found.or guest)

/-- `prefix` -/
def validateReleased (s : AllocationRows) (h : ReleasedRow) (domain : Domain) (allowSimulated : Bool) :
    Except HistoryError Unit := do
  let after ← s.releasedFloor domain
  let rows := select (s.entries enc domain allowSimulated) after (some h.reservedThrough) (domain.max + 1)
  ensure (Spans rows domain h.reservedThrough) .evidence
  let found ← frozenGuest rows h.context
  ensure (found = h.context) .evidence

def reserveReleased (s : AllocationRows) (domain : Domain) (epoch : ℤ) (allowSimulated : Bool) :
    Except HistoryError (Option ReleasedRow) := do
  let after ← s.releasedFloor domain
  match s.released domain with
  | none => do
    let (through, guest) ← extend (select (s.entries enc domain allowSimulated) after none domain.max) none
    pure (through.map fun through =>
      { reservedThrough := through, completedThrough := none, startAfter := after, context := guest,
        claimRevision := 0, reportingEpoch := epoch, leaseExpiresAt := none, nextRetryAt := none,
        request := none, completion := none, completedAt := none })
  | some h =>
    if h.Unfinished then pure (some h)
    else do
      let (through, guest) ← extend
        (select (s.entries enc domain allowSimulated) after none domain.max) h.context
      pure (through.map fun through =>
        { h with reservedThrough := through, context := guest, request := none })

def claimReleased (s : AllocationRows) (h : ReleasedRow) (domain : Domain) (epoch lease : ℤ)
    (allowSimulated : Bool) (now : Time) : Except HistoryError (ReleasedRow × ReleasedPreparation) := do
  let expires := now + seconds lease
  let h : ReleasedRow :=
    { h with
      claimRevision := h.claimRevision + 1
      reportingEpoch := epoch
      leaseExpiresAt := some expires
      nextRetryAt := none
      request := none }
  let claim : ReleasedClaim :=
    { claim := { allocationId := s.allocation.id, domain, revision := h.claimRevision,
                 expiresAt := expires }
      reportingEpoch := epoch }
  (s.setReleased domain h).validateReleased enc h domain allowSimulated
  let request ← s.releasedRequest h claim
  ensure (s.Reporting epoch ∧ now < expires) .lostClaim
  pure ({ h with request := some request }, { claim, request })

/-- `candidate` -/
def prepareReleased (s : AllocationRows) (domain : Domain) (epoch lease : ℤ) (allowSimulated : Bool)
    (now : Time) : Except HistoryError (Option (ReleasedRow × ReleasedPreparation)) := do
  match ← s.reserveReleased enc domain epoch allowSimulated with
  | none => pure none
  | some h => do
    let claimed ← s.claimReleased enc h domain epoch lease allowSimulated now
    pure (some claimed)

def ReleasedCandidate (s : AllocationRows) (host : HostId) (epoch : ℤ) (domain : Domain) (now : Time) : Prop :=
  s.allocation.hostId = host ∧ s.Reporting epoch ∧
    ∀ h ∈ s.released domain, Elapsed h.leaseExpiresAt now ∧ Elapsed h.nextRetryAt now

instance (s : AllocationRows) (host : HostId) (epoch : ℤ) (domain : Domain) (now : Time) :
    Decidable (s.ReleasedCandidate host epoch domain now) :=
  inferInstanceAs (Decidable (_ ∧ _ ∧ ∀ h ∈ s.released domain, _))

def retryReleased (s : AllocationRows) (domain : Domain) (now : Time) : AllocationRows :=
  match s.released domain with
  | none => s
  | some h => s.setReleased domain { h with nextRetryAt := some (now + seconds 5) }

/-- `claim_released_history`, as far as it concerns this allocation. -/
def claimReleasedHistory (s : AllocationRows) (host : HostId) (epoch : ℤ) (domain : Domain)
    (lease : ℤ) (allowSimulated : Bool) (now : Time) :
    Except HistoryError (AllocationRows × Option ReleasedPreparation) := do
  ensure (0 < epoch ∧ 1 ≤ lease ∧ lease ≤ 300) .policy
  if ¬s.ReleasedCandidate host epoch domain now then pure (s, none)
  else
    match s.prepareReleased enc domain epoch lease allowSimulated now with
    | .ok (some (h, preparation)) => pure (s.setReleased domain h, some preparation)
    | .ok none => pure (s, none)
    | .error .evidence => pure (s.retryReleased domain now, none)
    | .error error => .error error

def completeReleasedHistory (s : AllocationRows) (c : ReleasedClaim)
    (observed : ReleasedHistoryObservation) (allowSimulated : Bool) (now : Time) :
    Except HistoryError AllocationRows := do
  let h ← s.lockReleased c now
  s.validateReleased enc h c.claim.domain allowSimulated
  let expected ← s.releasedRequest h c
  ensure (h.request = some expected ∧ observed.request = expected ∧
    some observed.completedThrough = expected.through ∧
    (observed.releaseState = .released ∨ observed.releaseState = .fencedAbsent) ∧
    (observed.simulated = true → allowSimulated = true)) .evidence
  fresh observed.observedUnixMs c.claim now
  pure (s.setReleased c.claim.domain
    { h with
      completedThrough := some h.reservedThrough
      completion := some observed
      completedAt := some now
      leaseExpiresAt := none
      nextRetryAt := none })

def deferReleasedHistory (s : AllocationRows) (c : ReleasedClaim) (now : Time) :
    Except HistoryError AllocationRows := do
  let h ← s.lockReleased c now
  pure (s.setReleased c.claim.domain
    { h with leaseExpiresAt := none, nextRetryAt := some (now + seconds 5) })

end Released

/-! ### The allocation as a system -/

section System
variable (enc : Encodings)

inductive HistoryEvent where
  /-- The allocation's own columns and those of its host are written by other controllers. -/
  | allocation (view : AllocationView)
  /-- The allocation was retired. -/
  | retire
  | admitExecute (r : ExecuteCommand) (candidate : OperationId) (ready : Bool) (now : ℕ)
  | admitUpload (r : UploadCommand) (candidate attempt : OperationId) (ready : Bool) (now : Time)
      (expiresAt : Option Time)
  | command (id : OperationId) (allowSimulated : Bool) (event : CommandEvent)
  | upload (id : OperationId) (allowSimulated : Bool) (event : FileEvent)
  | claimHistory (host : HostId) (epoch : ℤ) (domain : Domain) (lease : ℤ) (allowSimulated : Bool)
      (now : Time)
  | bindHistory (claim : Claim) (observation : HistoryBindingObservation) (allowSimulated : Bool)
      (now : Time)
  | completeHistory (claim : Claim) (observation : HistoryObservation) (allowSimulated : Bool)
      (now : Time)
  | deferHistory (claim : Claim) (now : Time)
  | claimReleasedHistory (host : HostId) (epoch : ℤ) (domain : Domain) (lease : ℤ)
      (allowSimulated : Bool) (now : Time)
  | completeReleasedHistory (claim : ReleasedClaim) (observed : ReleasedHistoryObservation)
      (allowSimulated : Bool) (now : Time)
  | deferReleasedHistory (claim : ReleasedClaim) (now : Time)

/-- A transaction on the command with an identity. -/
def updateCommand (s : AllocationRows) (id : OperationId) (allowSimulated : Bool)
    (event : CommandEvent) : AllocationRows :=
  { s with
    commands := s.commands.map fun row =>
      if row.op.id = id then commandStep enc.commands enc.hash allowSimulated row event else row }

def updateUpload (s : AllocationRows) (id : OperationId) (allowSimulated : Bool) (event : FileEvent) :
    AllocationRows :=
  { s with
    uploads := s.uploads.map fun row =>
      if row.op.id = id then fileStep enc.sources enc.request enc.file allowSimulated row event
      else row }

def historyStep (s : AllocationRows) : HistoryEvent → AllocationRows
  | .allocation view => { s with view }
  | .retire => { s with retired := true }
  | .admitExecute r candidate ready now =>
    commit s ((s.admitExecute enc r candidate ready now).map Prod.fst)
  | .admitUpload r candidate attempt ready now expiresAt =>
    commit s ((s.admitUpload enc r candidate attempt ready now expiresAt).map Prod.fst)
  | .command id allowSimulated event => s.updateCommand enc id allowSimulated event
  | .upload id allowSimulated event => s.updateUpload enc id allowSimulated event
  | .claimHistory host epoch domain lease allowSimulated now =>
    commit s ((s.claimHistory enc host epoch domain lease allowSimulated now).map Prod.fst)
  | .bindHistory claim observation allowSimulated now =>
    commit s ((s.bindHistory enc claim observation allowSimulated now).map Prod.fst)
  | .completeHistory claim observation allowSimulated now =>
    commit s (s.completeHistory enc claim observation allowSimulated now)
  | .deferHistory claim now => commit s (s.deferHistory claim now)
  | .claimReleasedHistory host epoch domain lease allowSimulated now =>
    commit s ((s.claimReleasedHistory enc host epoch domain lease allowSimulated now).map Prod.fst)
  | .completeReleasedHistory claim observed allowSimulated now =>
    commit s (s.completeReleasedHistory enc claim observed allowSimulated now)
  | .deferReleasedHistory claim now => commit s (s.deferReleasedHistory claim now)

/-- The identity that an event admits. -/
def admits (s : AllocationRows) : HistoryEvent → Option OperationId
  | .admitExecute r candidate ready now =>
    (s.admitExecute enc r candidate ready now).toOption.map Prod.snd
  | .admitUpload r candidate attempt ready now expiresAt =>
    (s.admitUpload enc r candidate attempt ready now expiresAt).toOption.map Prod.snd
  | _ => none

end System
end AllocationRows
end HudsonSandbox.History
