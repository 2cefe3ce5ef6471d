import HudsonSandbox.Guardian.Manifest
import HudsonSandbox.Library.Maps
import HudsonSandbox.Library.Run
import HudsonSandbox.Library.Versions

/-!
# Removing a stopped guardian's metadata

The files of a directory are listed in a plan that is retained elsewhere before the first of them
goes. They are removed one at a time and the directory last; after a crash a session is opened
again under the same plan, and goes on with what is left.
-/

namespace HudsonSandbox.Guardian
open Checked AllocationAuthority AllocationRetirement
open Stored (Write)

def NAMES : List String := ["receipt.json", "manifest.json", "lifecycle.lock"]
def MAX_STAGED_FILES : ℕ := 16
def MAX_STAGED_BYTES : ℕ := 1 <<< 20

structure Identity where
  device : ℕ
  inode : ℕ
  deriving DecidableEq, Repr

structure Entry where
  identity : Identity
  len : ℕ
  sha256 : List UInt8
  deriving DecidableEq

/-- `BTreeMap<String, Entry>` -/
abbrev Files := AList fun _ : String => Entry

inductive Metadata where
  | absent
  | stopped (directory : Identity) (receipt : Receipt) (files staged : Files)
  deriving DecidableEq

structure Plan where
  version : ℕ
  intentSha256 : List UInt8
  metadata : Metadata
  deriving DecidableEq

/-! ### The directory -/

structure Node where
  identity : Identity
  regular : Bool
  uid : ℕ
  mode : ℕ
  nlink : ℕ
  bytes : List UInt8
  deriving DecidableEq

inductive FileName where
  | text (name : String)
  | raw (bytes : List UInt8)
  deriving DecidableEq

/-- `canonical`: no component of its path is a link. -/
structure Directory where
  identity : Identity
  isDir : Bool
  uid : ℕ
  mode : ℕ
  canonical : Bool
  entries : AList fun _ : FileName => Node
  deriving DecidableEq

/-- The directory of the allocation below the root, when there is one. -/
abbrev Tree := Option Directory

def Directory.remove (self : Directory) (name : String) : Directory :=
  { self with entries := self.entries.erase (.text name) }

section
variable (texts : Texts)

/-- `entry`: what is read of a private file of root. -/
def Node.entry (self : Node) : Except String Entry := do
  ensure (self.regular = true ∧ self.uid = 0 ∧ self.mode &&& 0o077 = 0 ∧ self.nlink = 1 ∧
    self.bytes.length ≤ 65536) "unowned retirement metadata"
  pure { identity := self.identity, len := self.bytes.length, sha256 := hex (texts.sha256 self.bytes) }

def sameEntry (node : Node) (expected : Entry) : Except String Unit := do
  let actual ← node.entry texts
  ensure (actual = expected) "retirement metadata replaced or changed"

end

/-! ### Staging names -/

def hexValue (c : Char) : ℕ := if c.isDigit then c.toNat - 48 else c.toNat - 87

/-- The UUID with this canonical rendering; the parser refuses every other spelling. -/
def parseUuid (text : List Char) : Option Uuid :=
  let id : Uuid := BitVec.ofNat 128
    ((text.filter (· ≠ '-')).foldl (fun value digit => 16 * value + hexValue digit) 0)
  if id.hyphenated = text ∧ id.getVersionNum = 7 then some id else none

/-- An operation's identity and `.tmp`, as the atomic writer names its files. -/
def isStagingName (name : String) : Bool :=
  let text := name.toList
  let stem := text.take (text.length - 4)
  text.drop (text.length - 4) = ".tmp".toList && stem.take 3 = "op_".toList &&
    (parseUuid (stem.drop 3)).isSome

/-! ### Plans -/

/-- `try_fold` of `checked_add`. -/
def checkedSum (start : ℕ) : List ℕ → Option ℕ
  | [] => some start
  | n :: rest => do
    let total ← checkedAdd 64 start n
    checkedSum total rest

def lengths (files : Files) : List ℕ := files.entries.map fun entry => entry.2.len

def Entry.validate (self : Entry) (message : String) : Except String Unit :=
  ensure (0 < self.identity.inode ∧ self.len ≤ 65536 ∧ IsSha256 self.sha256) message

section
variable (texts : Texts)

/-- The retained evidence is the text of what it was read from. -/
def evidence (files : Files) (name : String) (bytes : List UInt8) : Except String Unit := do
  let file ← okOr (files.lookup name) "invalid deletion inventory"
  ensure (file.len = bytes.length ∧ file.sha256 = hex (texts.sha256 bytes))
    "retained deletion evidence differs from original file digest"

def validateAll (check : String → Entry → Except String Unit) : List (Σ _ : String, Entry) → Except String Unit
  | [] => .ok ()
  | file :: rest => do
    check file.1 file.2
    validateAll check rest

def Plan.validate (self : Plan) (intent : Intent) (manifest : Option Manifest) : Except String Unit := do
  let digest ← (intent.digest texts.intents texts.sha256).mapError fun _ => "invalid intent"
  ensure ((self.version = 1 ∨ self.version = 2) ∧ self.intentSha256 = hex digest)
    "deletion scope mismatch"
  match self.metadata, manifest with
  | .absent, none => pure ()
  | .stopped directory receipt files staged, some manifest => do
    manifest.validateReceipt texts receipt
    ensure (receipt.state = .stopped ∧ receipt.cleanupConfirmed = true) "unverified deletion cleanup"
    ensure (files.keys.length = NAMES.length ∧ ∀ name ∈ NAMES, name ∈ files) "invalid deletion inventory"
    ensure ((self.version = 2 ∨ staged.keys = []) ∧ staged.keys.length ≤ MAX_STAGED_FILES ∧
      (checkedSum 0 (lengths staged)).any (· ≤ MAX_STAGED_BYTES) = true ∧
      staged.keys.all isStagingName = true) "invalid staged metadata inventory"
    ensure (0 < directory.inode) "invalid deletion directory identity"
    let receiptBytes ← okOr (texts.receipts.encode receipt) "invalid guardian metadata"
    let manifestBytes ← okOr (texts.manifests.encode manifest) "invalid guardian metadata"
    evidence texts files "receipt.json" receiptBytes
    evidence texts files "manifest.json" manifestBytes
    evidence texts files "lifecycle.lock" []
    validateAll (fun name file => do
      file.validate "invalid deletion file digest"
      ensure (name ≠ "lifecycle.lock" ∨ file.len = 0) "invalid lifecycle lock contents") files.entries
    validateAll (fun _ file => file.validate "invalid staged metadata digest") staged.entries
  | _, _ => throw "deletion manifest mismatch"

/-! ### Sessions -/

/-- Holds the authority's exclusive lock; `directory` and `lifecycle` say which of the two files
are open. -/
structure Session where
  lifecycle : Bool
  directory : Bool
  plan : Plan
  deriving DecidableEq

/-- What a session is opened with, and what it finds outside the directory. -/
structure Scope where
  root : Path
  cgroupParent : Path
  minimum : Inner.Checkpoint
  authority : Inner.AuthorityFile
  /-- The group of the allocation still exists. -/
  group : Bool
  /-- Another process holds the lifecycle lock. -/
  contended : Bool
  privileged : Bool

structure Found where
  actual : Files
  staged : Files

/-- The loop over `read_dir`. -/
def readDir (found : Found) : List (Σ _ : FileName, Node) → Except String Found
  | [] => .ok found
  | ⟨.raw _, _⟩ :: _ => .error "invalid metadata name"
  | ⟨.text name, node⟩ :: rest =>
    if name ∈ NAMES then do
      let entry ← node.entry texts
      readDir { found with actual := found.actual.insert name entry } rest
    else if isStagingName name = true then do
      ensure (found.staged.keys.length < MAX_STAGED_FILES) "too many staged allocation metadata files"
      let entry ← node.entry texts
      ensure ((checkedSum entry.len (lengths found.staged)).any (· ≤ MAX_STAGED_BYTES) = true)
        "staged allocation metadata exceeds retirement bound"
      readDir { found with staged := found.staged.insert name entry } rest
    else .error "unknown allocation metadata prevents deletion"

/-- Take the original lifecycle lock, if it is still there. -/
def takeLifecycle (directory : Directory) (contended saved : Bool) : Except String Bool :=
  match directory.entries.lookup (.text "lifecycle.lock") with
  | some node => do
    let entry ← node.entry texts
    ensure (entry.len = 0 ∧ node.identity = entry.identity) "invalid lifecycle identity"
    ensure (contended = false) "lock contended"
    pure true
  | none => do
    ensure (saved = true) "lifecycle lock missing"
    pure false

/-- What is left is what the plan lists. -/
def planned (directory : Directory) (files : Files) (message : String) :
    List String → Except String Unit
  | [] => .ok ()
  | name :: rest => do
    let expected ← okOr (files.lookup name) message
    let node ← okOr (directory.entries.lookup (.text name)) "not found"
    sameEntry texts node expected
    planned directory files message rest

def checkFound (directory : Directory) (found : Found) (saved : Option Plan) : Except String Unit :=
  match saved with
  | some { metadata := .stopped _ _ files staged, .. } => do
    planned texts directory files "unplanned allocation metadata" found.actual.keys
    planned texts directory staged "unplanned staged allocation metadata" found.staged.keys
  | some { metadata := .absent, .. } => pure ()
  | none => ensure (found.actual.keys.length = NAMES.length) "incomplete original guardian metadata"

/-- The checks of a directory that exists. -/
def inspect (directory : Directory) (manifest : Option Manifest) (contended : Bool)
    (saved : Option Plan) : Except String (Bool × Found) := do
  ensure (manifest.isSome = true) "unknown allocation directory"
  let lifecycle ← takeLifecycle texts directory contended saved.isSome
  let found ← readDir texts { actual := ∅, staged := ∅ } directory.entries.entries
  ensure (lifecycle = true ∨ found.actual.keys = []) "missing lifecycle lock before metadata removal"
  checkFound texts directory found saved
  pure (lifecycle, found)

def privateDir (directory : Directory) (saved : Option Plan) : Except String Unit := do
  ensure (directory.isDir = true ∧ directory.uid = 0 ∧ directory.mode &&& 0o077 = 0 ∧
    directory.canonical = true) "unowned retirement directory"
  match saved with
  | some { metadata := .stopped identity _ _ _, .. } =>
    ensure (directory.identity = identity) "retirement directory replaced"
  | some { metadata := .absent, .. } => throw "unexpected directory for unused permit"
  | none => pure ()

/-- `read_json` -/
def readJson {α : Type} (json : Codec α (List UInt8)) (directory : Directory) (name : String) :
    Except String α := do
  let node ← okOr (directory.entries.lookup (.text name)) "not found"
  ensure (node.regular = true ∧ node.bytes.length ≤ 65536) "invalid guardian metadata file"
  okOr (json.decode node.bytes) "invalid guardian metadata"

/-- The metadata of a first plan. -/
def newMetadata (tree : Tree) (manifest : Option Manifest) (found : Found) : Except String Metadata :=
  match manifest with
  | none => pure .absent
  | some manifest => do
    let directory ← okOr tree "missing directory"
    let disk ← readJson texts.manifests directory "manifest.json"
    let written ← disk.digest texts
    let expected ← manifest.digest texts
    ensure (written = expected) "retirement manifest changed"
    let receipt ← readJson texts.receipts directory "receipt.json"
    manifest.validateReceipt texts receipt
    ensure (receipt.cleanupConfirmed = true ∧ receipt.state = .stopped) "guardian cleanup unconfirmed"
    pure (.stopped directory.identity receipt found.actual found.staged)

def newPlan (tree : Tree) (intent : Intent) (manifest : Option Manifest) (found : Found) :
    Except String Plan := do
  let metadata ← newMetadata texts tree manifest found
  let digest ← (intent.digest texts.intents texts.sha256).mapError fun _ => "invalid intent"
  pure { version := 2, intentSha256 := hex digest, metadata }

/-- What an open checks of the host before it looks at the directory. -/
def authorized (scope : Scope) (intent : Intent) (manifest : Option Manifest) : Except String Unit := do
  scope.authority.authorizeDeletion texts.toTexts intent.permit.host scope.minimum intent
  ensure (dedicated scope.cgroupParent) "invalid retirement cgroup parent"
  ensure (scope.group = false) "retirement resource still present"
  match manifest with
  | none => pure ()
  | some m => do
    m.validate texts scope.privileged
    ensure (m.launchPermit = some intent.permit ∧ m.config.stateRoot.same scope.root ∧
      m.config.cgroupParent.same scope.cgroupParent) "retirement guardian scope mismatch"

def validateSaved (intent : Intent) (manifest : Option Manifest) : Option Plan → Except String Unit
  | none => pure ()
  | some plan => plan.validate texts intent manifest

/-- What an open finds of the directory. -/
def lookUp (scope : Scope) (tree : Tree) (manifest : Option Manifest) (saved : Option Plan) :
    Except String (Bool × Found) :=
  match tree with
  | some directory => do
    privateDir directory saved
    inspect texts directory manifest scope.contended saved
  | none => do
    ensure (saved.isSome = true ∨ manifest.isNone = true) "missing original guardian metadata"
    pure (false, { actual := ∅, staged := ∅ })

/-- A retained plan is never replaced. -/
def choosePlan (tree : Tree) (intent : Intent) (manifest : Option Manifest) (found : Found) :
    Option Plan → Except String Plan
  | some plan => pure plan
  | none => newPlan texts tree intent manifest found

/-- `Session::open` -/
def openSession (scope : Scope) (tree : Tree) (intent : Intent) (manifest : Option Manifest)
    (saved : Option Plan) : Except String Session := do
  authorized texts scope intent manifest
  validateSaved texts intent manifest saved
  let (lifecycle, found) ← lookUp texts scope tree manifest saved
  let plan ← choosePlan texts tree intent manifest found saved
  plan.validate texts intent manifest
  pure { lifecycle, directory := tree.isSome, plan }

end

/-! ### Removal -/

/-- The order in which a map is walked. -/
def ordered (files : Files) : List String := files.keys.mergeSort (· ≤ ·)

/-- The first planned file that is still there. -/
def nextFile (plan : Plan) (directory : Directory) : Option (String × Option Entry × Node) :=
  match plan.metadata with
  | .absent => none
  | .stopped _ _ files staged =>
    let planned := NAMES.map (fun name => (name, files.lookup name)) ++
      (ordered staged).map fun name => (name, staged.lookup name)
    planned.findSome? fun file =>
      (directory.entries.lookup (.text file.1)).map fun node => (file.1, file.2, node)

section
variable (texts : Texts)

/-- One bounded step: remove a file and sync, or the empty directory and sync its parent. The
answer says whether nothing is left; a failed change or sync is an error. -/
def removeNext (session : Session) (tree : Versions Tree) (write : Write) :
    Versions Tree × Session × Except String Bool :=
  if session.directory = true then
    match tree.visible with
    | none => (tree, session, .error "not found")
    | some directory =>
      match nextFile session.plan directory with
      | some (name, expected, node) =>
        match expected.map (sameEntry texts node) with
        | some (.ok ()) =>
          (tree.write (some (directory.remove name)) write, session,
            if write = .done then .ok false else .error "input/output error")
        | some (.error e) => (tree, session, .error e)
        | none => (tree, session, .error "not planned")
      | none =>
        if directory.entries.keys = [] then
          if write = .lost then (tree, session, .error "input/output error")
          else (tree.write none write, { session with directory := false },
            if write = .done then .ok true else .error "input/output error")
        else (tree, session, .error "directory not empty")
  else if write = .done then (tree.sync, session, .ok true)
  else (tree, session, .error "input/output error")

/-- `while !session.remove_next()? {}` -/
def removeAll : ℕ → Session → Versions Tree → Versions Tree × Except String Unit
  | 0, _, tree => (tree, .error "out of fuel")
  | fuel + 1, session, tree =>
    match removeNext texts session tree .done with
    | (tree, _, .error e) => (tree, .error e)
    | (tree, _, .ok true) => (tree, .ok ())
    | (tree, session, .ok false) => removeAll fuel session tree

end

/-! ### Runs -/

/-- The session is what a process holds; the plan is retained outside the directory. -/
structure Removal where
  tree : Versions Tree
  session : Option Session
  plan : Plan

inductive Event where
  /-- A process opens a session under the retained plan. -/
  | reopen (scope : Scope)
  | removeNext (write : Write)
  /-- The process stops. -/
  | crash
  | powerLoss (kept : ℕ)

namespace Removal
section
variable (texts : Texts) (intent : Intent) (manifest : Option Manifest)

def step (s : Removal) : Event → Removal
  | .reopen scope =>
    match s.session, openSession texts scope s.tree.visible intent manifest (some s.plan) with
    | none, .ok session => { s with session := some session }
    | _, _ => s
  | .removeNext write =>
    match s.session with
    | none => s
    | some session =>
      match Guardian.removeNext texts session s.tree write with
      | (tree, session, .ok _) => { s with tree, session := some session }
      -- A failed step ends the request that holds the session.
      | (tree, _, .error _) => { s with tree, session := none }
  | .crash => { s with session := none }
  | .powerLoss kept => { s with tree := s.tree.recover kept, session := none }

def runs (s : Removal) (events : List Event) : Removal := Run.run (step texts intent manifest) s events

end
end Removal
end HudsonSandbox.Guardian
