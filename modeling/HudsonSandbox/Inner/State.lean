import HudsonSandbox.Inner.Threads

/-!
# The state of a host

The journal in memory and on disk, the launch authority, what the guardians left, the capture
tickets and the threads. A host that is down keeps its files; everything in memory goes.
-/

namespace HudsonSandbox
namespace Inner
open Checked AllocationAuthority AllocationRetirement Stored Host

/-- A capture that no reader has released. Expired tickets are pruned before they are counted. -/
structure Ticket where
  allocation : AllocationId
  expires : ℤ
  released : Bool
  deriving DecidableEq, Repr

inductive ForgetState where
  | forgotten
  /-- The owner and scope are no longer retained: this only denies. -/
  | retired
  deriving DecidableEq, Repr

/-- What the host did and acknowledged. -/
inductive Fact where
  /-- The allocation was given a manifest; `before` is the journal it was admitted to. -/
  | admitted (allocation : AllocationId) (before : Journal)
  | spawned (allocation : AllocationId)
  | fenced (request : AllocationRetirement.Request)
  | retired (request : AllocationRetirement.Request)
  /-- The row of a completed retirement left the journal. -/
  | removed (allocation : AllocationId)
  | forgotten (request : ForgetRequest) (state : ForgetState)

end Inner

open Inner in
/-- `floor` is the bound under which the authority was opened. `facts` is history, newest first;
no code reads it. -/
structure Inner where
  up : Bool
  poisoned : Bool
  journal : Journal
  floor : Checkpoint
  file : Stored Journal
  authority : Option (Stored AuthorityFile)
  runtime : AllocationId → Stored Runtime
  tickets : List Ticket
  threads : List Thread
  nextGate : ℕ
  facts : List Fact

namespace Inner
open Checked AllocationAuthority AllocationRetirement Stored Host

/-- What the environment decides about one step of a thread. -/
structure Turn where
  now : ℤ := 0
  write : Write := .done
  /-- Other processes leave the lock, and the guardian or the kernel does what it is asked. -/
  granted : Bool := true
  /-- The guardian answers that its guest is running and bound. -/
  running : Bool := false
  /-- What the configuration has against a create. -/
  refusal : Option Status := none
  /-- What another request makes of the record. -/
  record : Option Record := none
  /-- A file worker reserves a ticket that expires then. -/
  reserve : Option ℤ := none
  /-- A file worker releases this ticket. -/
  release : Option ℕ := none

def resume (s : Inner) (t : Thread) (point : Point) : Inner :=
  { s with threads := { t with point } :: s.threads }

def tell (s : Inner) (fact : Fact) : Inner := { s with facts := fact :: s.facts }

/-- Save the journal; a save that fails poisons it and ends the request. -/
def commit (s : Inner) (journal : Journal) (write : Write) (next : Inner → Inner) : Inner :=
  let saved := { s with
    journal, file := s.file.write journal write, poisoned := decide (write ≠ .done) }
  if write = .done then next saved else saved

/-- Change one row and save the journal in one critical section. -/
def edit (s : Inner) (id : AllocationId) (change : Row → Except Status Row) (write : Write)
    (next : Row → Inner → Inner) : Inner :=
  if s.poisoned = true then s
  else
    match s.journal.edit id change with
    | .error _ => s
    | .ok (row, journal) => s.commit journal write (next row)

/-- Save the launch authority; a save that fails ends the request. -/
def rewrite (s : Inner) (change : AuthorityFile → Except String AuthorityFile) (write : Write)
    (next : Inner → Inner) : Inner :=
  match s.authority with
  | none => s
  | some file =>
    match change file.visible with
    | .error _ => s
    | .ok saved =>
      let written := { s with authority := some (file.write saved write) }
      if write = .done then next written else written

/-- Read a row under the journal mutex. -/
def withRow (s : Inner) (id : AllocationId) (next : Row → Inner) : Inner :=
  if s.poisoned = true then s
  else
    match s.journal.records.lookup id with
    | none => s
    | some row => next row

/-- The independent bounds that the journal keeps for the authority's readers. -/
def bounds (s : Inner) : Option Checkpoint :=
  s.journal.launchAuthority.map fun checkpoint => { checkpoint with epoch := s.journal.epoch }

def syncAuthority (s : Inner) : Inner := { s with authority := s.authority.map sync }

/-- What readers see in the directory and the control group of an allocation. -/
def seen (s : Inner) (allocation : AllocationId) : Runtime := (s.runtime allocation).visible

def setRuntime (s : Inner) (allocation : AllocationId) (runtime : Stored Runtime) : Inner :=
  { s with runtime := Function.update s.runtime allocation runtime }

def syncRuntime (s : Inner) (allocation : AllocationId) : Inner :=
  s.setRuntime allocation (s.runtime allocation).sync

/-! ### Capture tickets -/

def MAX_DOWNLOADS : ℕ := 64
def MAX_ALLOCATION_DOWNLOADS : ℕ := 8

def prune (s : Inner) (now : ℤ) : Inner :=
  { s with tickets := s.tickets.filter fun ticket => now < ticket.expires }

/-- `pending_allocation`, of pruned tickets -/
def Pending (s : Inner) (allocation : AllocationId) : Prop :=
  ∃ ticket ∈ s.tickets, ticket.allocation = allocation ∧ ticket.released = false

instance (s : Inner) (allocation : AllocationId) : Decidable (s.Pending allocation) :=
  inferInstanceAs (Decidable (∃ _ ∈ _, _))

def reserveTicket (s : Inner) (allocation : AllocationId) (expires : ℤ) : Inner :=
  if MAX_DOWNLOADS ≤ s.tickets.length ∨
      MAX_ALLOCATION_DOWNLOADS ≤ s.tickets.countP fun ticket => ticket.allocation = allocation then s
  else { s with tickets := { allocation, expires, released := false } :: s.tickets }

def releaseTicket (s : Inner) (index : ℕ) : Inner :=
  { s with tickets := s.tickets.modify index fun ticket => { ticket with released := true } }

end Inner
end HudsonSandbox
