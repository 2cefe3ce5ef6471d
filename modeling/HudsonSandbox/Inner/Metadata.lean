import HudsonSandbox.Inner.Authority

/-!
# The guardian's metadata of an allocation

What is left of a stopped guardian, and its removal one file at a time from a plan that was
retained outside the directory before the first file went.
-/

namespace HudsonSandbox.Inner
open Checked AllocationAuthority AllocationRetirement Host

def MAX_STAGED_FILES : ℕ := 16

/-- The directory of one allocation. A present receipt says whether its guardian stopped with its
cleanup confirmed. -/
structure Directory where
  receipt : Option Bool
  manifest : Bool
  lifecycleLock : Bool
  staged : List OperationId
  /-- Anything that deletion does not know, such as a file of a running guardian. -/
  unknown : Bool
  deriving DecidableEq, Repr

structure Runtime where
  directory : Option Directory
  cgroup : Bool
  deriving DecidableEq, Repr

/-- The receipt on disk confirms the cleanup; no guardian writes in the directory any more. -/
def Runtime.cleaned (self : Runtime) : Bool :=
  match self.directory with
  | some directory => directory.receipt == some true
  | none => false

def Directory.complete (self : Directory) : Prop :=
  self.receipt.isSome = true ∧ self.manifest = true ∧ self.lifecycleLock = true

instance (self : Directory) : Decidable self.complete := inferInstanceAs (Decidable (_ ∧ _))

section
variable (texts : Texts)

def Plan.validate (self : Plan) (intent : Intent) (manifest : Option Manifest) :
    Except String Unit := do
  let digest ← (intent.digest texts.intents texts.sha256).mapError fun _ => "deletion scope mismatch"
  ensure (self.intentSha256 = digest) "deletion scope mismatch"
  match self.metadata, manifest with
  | .absent, none => pure ()
  | .stopped staged, some _ =>
    ensure (staged.length ≤ MAX_STAGED_FILES) "invalid staged metadata inventory"
  | _, _ => throw "deletion manifest mismatch"

def manifestScope (intent : Intent) (manifest : Option Manifest) : Except String Unit :=
  ensure (∀ m ∈ manifest, m.launchPermit = some intent.permit) "retirement guardian scope mismatch"

/-- `verify_absent`: absence alone supplies no proof of anything. -/
def verifyAbsent (runtime : Runtime) (intent : Intent) : Except String Unit := do
  intent.validate.mapError fun _ => "invalid retirement intent"
  ensure (intent.simulated = false) "physical retirement required"
  ensure (runtime.directory = none ∧ runtime.cgroup = false) "retirement resource still present"

def Plan.verifyRemoved (self : Plan) (runtime : Runtime) (intent : Intent)
    (manifest : Option Manifest) : Except String Unit := do
  self.validate texts intent manifest
  manifestScope intent manifest
  verifyAbsent runtime intent

/-- What is found in the directory is what the retained plan still has to remove, or, without
one, the complete original metadata. -/
def inventory (directory : Directory) (manifest : Option Manifest) (saved : Option Plan) :
    Except String Unit := do
  ensure (manifest.isSome = true) "unknown allocation directory"
  ensure (directory.lifecycleLock = true ∨ saved.isSome = true) "lifecycle lock missing"
  ensure (directory.unknown = false) "unknown allocation metadata prevents deletion"
  ensure (directory.staged.length ≤ MAX_STAGED_FILES) "too many staged allocation metadata files"
  ensure (directory.lifecycleLock = true ∨ (directory.receipt = none ∧ directory.manifest = false))
    "missing lifecycle lock before metadata removal"
  match saved with
  | none => ensure directory.complete "incomplete original guardian metadata"
  | some { metadata := .absent, .. } => throw "unexpected directory for unused permit"
  | some { metadata := .stopped staged, .. } =>
    ensure (directory.staged.all staged.contains = true) "unplanned staged allocation metadata"

/-- The plan of a first deletion. -/
def newPlan (runtime : Runtime) (intent : Intent) (manifest : Option Manifest) :
    Except String Plan := do
  let digest ← (intent.digest texts.intents texts.sha256).mapError fun _ => "deletion scope mismatch"
  match manifest, runtime.directory with
  | none, _ => pure { intentSha256 := digest, metadata := .absent }
  | some _, none => throw "missing original guardian metadata"
  | some _, some directory =>
    ensure (directory.receipt = some true) "guardian cleanup unconfirmed"
    pure { intentSha256 := digest, metadata := .stopped directory.staged }

/-- `Session::open`, after the authority's exclusive lock is held. -/
def openSession (runtime : Runtime) (intent : Intent) (manifest : Option Manifest)
    (saved : Option Plan) : Except String Plan := do
  ensure (runtime.cgroup = false) "retirement resource still present"
  manifestScope intent manifest
  match saved with
  | some plan => plan.validate texts intent manifest
  | none => pure ()
  match runtime.directory with
  | some directory => inventory directory manifest saved
  | none => ensure (saved.isSome = true ∨ manifest = none) "missing original guardian metadata"
  let plan ← match saved with
    | some plan => pure plan
    | none => newPlan texts runtime intent manifest
  plan.validate texts intent manifest
  pure plan

end

/-- One bounded, synced deletion step; the directory goes last. -/
def removeNext (plan : Plan) (directory : Directory) : Except String (Option Directory) :=
  match plan.metadata with
  | .absent => .error "unexpected directory for unused permit"
  | .stopped staged =>
    if directory.receipt.isSome = true then .ok (some { directory with receipt := none })
    else if directory.manifest = true then .ok (some { directory with manifest := false })
    else if directory.lifecycleLock = true then .ok (some { directory with lifecycleLock := false })
    else
      match staged.find? fun name => directory.staged.contains name with
      | some name => .ok (some { directory with staged := directory.staged.erase name })
      | none =>
        if directory.staged = [] ∧ directory.unknown = false then .ok none
        else .error "directory not empty"

end HudsonSandbox.Inner
