import HudsonSandbox.Inner.Metadata

/-!
# Requests in flight

A request is a thread at one of its program points. Between two points it takes one critical
section, one durable step or one external action; everything it has read before stands in the
point. What a point holds (the allocation's gate, its readers, the launch lock, the journal mutex)
is what excludes other threads.
-/

namespace HudsonSandbox.Inner
open Supervisor AllocationRetirement Host
open LiveOutput hiding Status

/-- A request that waits for an allocation's gate. -/
inductive Task where
  | create (o : Ownership) (request : CreateRequest)
  | inspect (o : Ownership) (stop : Bool)
  | lease (o : Ownership) (lease : LeaseOwnership) (expires : Option ℤ)
  | previous (o : Ownership)
  /-- Maintenance has read the record before it tries the gate. -/
  | reconcile (record : Record)
  /-- Commands, uploads, histories and outputs; the first two may insert the record. -/
  | other (o : Ownership) (inserts : Bool)
  deriving DecidableEq

inductive Point where
  /-- Before the gate is looked up. -/
  | arriving (task : Task)
  | waiting (task : Task)
  /-- Under the gate, before the first section. -/
  | held (task : Task)
  | admitting (o : Ownership) (request : CreateRequest)
  | preparing (record : Record)
  | dispatching (record : Record)
  | spawning (record : Record)
  | awaiting
  | stopping (record : Record)
  | observing (record : Record)
  | releasing
  | editing
  /-- The intent is saved and the root is fenced next; `retire` goes on to remove the metadata. -/
  | fencing (request : AllocationRetirement.Request) (minimum : Checkpoint) (retire : Bool)
  | draining (request : AllocationRetirement.Request) (retire : Bool)
  | ticketing (request : AllocationRetirement.Request) (retire : Bool)
  | acknowledging (request : AllocationRetirement.Request) (retire : Bool)
  /-- The fence has been acknowledged and its gate dropped. -/
  | regating (request : AllocationRetirement.Request)
  | relocking (request : AllocationRetirement.Request)
  | surveying (request : AllocationRetirement.Request)
  | planning (request : AllocationRetirement.Request) (row : Row) (plan : Plan)
  | unlinking (request : AllocationRetirement.Request) (row : Row) (saved : Saved)
  | finishing (request : AllocationRetirement.Request) (row : Row) (saved : Saved)
  | completing (request : ForgetRequest)
  | removing (request : ForgetRequest)
  | syncing (request : ForgetRequest)
  | closing (request : ForgetRequest)
  | checkpointing (checkpoint : Checkpoint)
  /-- An output reader or a file worker whose pin keeps the allocation from being retired. -/
  | reading
  deriving DecidableEq

/-- `launch` says that the thread holds the launch lock with the other creates. -/
structure Thread where
  allocation : AllocationId
  gate : ℕ
  launch : Bool
  point : Point
  deriving DecidableEq

namespace Point

/-- The allocation's gate is held. -/
def gated : Point → Bool
  | .arriving _ | .waiting _ | .regating _ | .relocking _ | .checkpointing _ | .reading => false
  | _ => true

/-- The allocation's readers are held closed. -/
def drained : Point → Bool
  | .ticketing .. | .acknowledging .. | .planning .. | .unlinking .. | .finishing ..
  | .completing _ | .removing _ | .syncing _ | .closing _ => true
  | _ => false

/-- The launch lock is held alone. -/
def exclusive : Point → Bool
  | .planning .. | .unlinking .. | .finishing .. | .completing _ | .removing _ | .syncing _
  | .closing _ => true
  | _ => false

/-- The journal mutex is held. -/
def journaling : Point → Bool
  | .completing _ | .removing _ | .syncing _ | .closing _ | .checkpointing _ => true
  | _ => false

/-- The next step takes the journal mutex. -/
def sections : Point → Bool
  | .arriving _ | .admitting .. | .dispatching _ | .stopping _ | .releasing | .editing | .regating _
  | .surveying _ | .planning .. | .finishing .. => true
  | .held (.reconcile _) => false
  | .held _ => true
  | _ => false

end Point

namespace Thread

def holds (t : Thread) (gate : ℕ) : Prop := t.point.gated = true ∧ t.gate = gate

instance (t : Thread) (gate : ℕ) : Decidable (t.holds gate) := inferInstanceAs (Decidable (_ ∧ _))

def drains (t : Thread) (gate : ℕ) : Prop := t.point.drained = true ∧ t.gate = gate

instance (t : Thread) (gate : ℕ) : Decidable (t.drains gate) := inferInstanceAs (Decidable (_ ∧ _))

def pins (t : Thread) (gate : ℕ) : Prop := t.point = .reading ∧ t.gate = gate

instance (t : Thread) (gate : ℕ) : Decidable (t.pins gate) := inferInstanceAs (Decidable (_ ∧ _))

end Thread

/-! ### What other threads leave free -/

def GateFree (threads : List Thread) (gate : ℕ) : Prop := ∀ t ∈ threads, ¬t.holds gate

/-- `try_write_owned` -/
def ReadersFree (threads : List Thread) (gate : ℕ) : Prop :=
  ∀ t ∈ threads, ¬t.pins gate ∧ ¬t.drains gate

/-- `try_read_owned` -/
def ReadersOpen (threads : List Thread) (gate : ℕ) : Prop := ∀ t ∈ threads, ¬t.drains gate

/-- The launch lock can be shared. -/
def LaunchOpen (threads : List Thread) : Prop := ∀ t ∈ threads, t.point.exclusive = false

/-- The launch lock can be taken alone. -/
def LaunchFree (threads : List Thread) : Prop :=
  ∀ t ∈ threads, t.point.exclusive = false ∧ t.launch = false

def JournalFree (threads : List Thread) : Prop := ∀ t ∈ threads, t.point.journaling = false

instance (threads : List Thread) (gate : ℕ) : Decidable (GateFree threads gate) :=
  inferInstanceAs (Decidable (∀ _ ∈ threads, _))

instance (threads : List Thread) (gate : ℕ) : Decidable (ReadersFree threads gate) :=
  inferInstanceAs (Decidable (∀ _ ∈ threads, _))

instance (threads : List Thread) (gate : ℕ) : Decidable (ReadersOpen threads gate) :=
  inferInstanceAs (Decidable (∀ _ ∈ threads, _))

instance (threads : List Thread) : Decidable (LaunchOpen threads) :=
  inferInstanceAs (Decidable (∀ _ ∈ threads, _))

instance (threads : List Thread) : Decidable (LaunchFree threads) :=
  inferInstanceAs (Decidable (∀ _ ∈ threads, _))

instance (threads : List Thread) : Decidable (JournalFree threads) :=
  inferInstanceAs (Decidable (∀ _ ∈ threads, _))

end HudsonSandbox.Inner
