import HudsonSandbox.Library.Framed
import HudsonSandbox.Library.Ordered
import HudsonSandbox.Protocol.Display
import HudsonSandbox.Protocol.Receipts
import Mathlib.Data.String.Basic

/-!
# Guest messages

The messages that guest and host exchange about commands, and their conversions from and to the model.
Converting back reads exactly the messages that valid values are converted to.
-/

namespace HudsonSandbox.TypedId
variable {resource : Resource}

/-- Every identity the service mints or parses. -/
def Minted (id : TypedId resource) : Prop := id.uuid.getVersionNum = 7

instance (id : TypedId resource) : Decidable id.Minted := inferInstanceAs (Decidable (_ = _))

end HudsonSandbox.TypedId

namespace HudsonSandbox.GuestWire
open Checked

/-! ### Enumerations and digests -/

section Enumerations
variable {α : Type} [DecidableEq α]

/-- Number 0 is the unspecified member of every enumeration. -/
def number (members : List α) (value : α) : ℤ := members.idxOf value + 1

def enumeration (members : List α) (unspecified : String) (n : ℤ) : Except String α :=
  if n = 0 then .error unspecified
  else okOr (if 0 < n then members[(n - 1).toNat]? else none) ("unknown enumeration value " ++ toString n)

/-- Each of the distinct members is read from its own number and from no other. -/
theorem enumeration_ok {members : List α} (distinct : members.Nodup) (complete : ∀ a, a ∈ members)
    {unspecified : String} {n : ℤ} {a : α} :
    enumeration members unspecified n = .ok a ↔ n = number members a := by
  unfold enumeration number
  constructor
  · intro read
    split at read
    next => cases read
    next nonzero =>
      have found := okOr_ok.mp read
      split at found
      next positive =>
        obtain ⟨within, same⟩ := List.getElem?_eq_some_iff.mp found
        have place : members.idxOf a = (n - 1).toNat := by
          rw [← same]
          exact distinct.idxOf_getElem _ within
        omega
      next => cases found
  · intro same
    have nonzero : ¬n = 0 := by omega
    have positive : 0 < n := by omega
    have place : (n - 1).toNat = members.idxOf a := by omega
    rw [if_neg nonzero, if_pos positive, place, List.getElem?_idxOf (complete a)]
    rfl

end Enumerations

/-- Bytes of any other length are no digest. -/
def digest (error : String) (bytes : List UInt8) : Except String GuestModel.Digest :=
  if size : bytes.length = 32 then .ok ⟨bytes.toArray, size⟩ else .error error

theorem digest_ok {error : String} {bytes : List UInt8} {d : GuestModel.Digest} :
    digest error bytes = .ok d ↔ bytes = d.toList := by
  unfold digest
  constructor
  · intro read
    split at read
    next =>
      cases read
      rfl
    next => cases read
  · intro same
    subst same
    rw [dif_pos d.length_toList]
    rfl

def identity {resource : Resource} (error : String) (text : String) : Except String (TypedId resource) :=
  (TypedId.parse text).mapError fun _ => error

theorem identity_ok {resource : Resource} {error text : String} {id : TypedId resource} :
    identity error text = .ok id ↔ text = id.toString ∧ id.Minted := by
  unfold identity
  rw [mapError_ok]
  exact TypedId.parse_ok

/-! ### Messages -/

structure Context where
  allocationId : String
  generation : ℤ
  bootId : String
  deriving DecidableEq

/-- The environment is a hash map: its keys are distinct and it lists them in no particular order. -/
structure Execute where
  operationId : String
  argv : List String
  env : List (String × String)
  cwd : String
  deadlineUnixMs : ℤ
  outputLimit : ℕ
  distinct : (env.map Prod.fst).Nodup

structure OutputStats where
  seen : ℕ
  stored : ℕ
  truncated : Bool
  deriving DecidableEq

structure Receipt where
  version : ℕ
  context : Option Context
  operationId : String
  digest : List UInt8
  state : ℤ
  deadlineUnixMs : ℤ
  outputLimit : ℕ
  cancelRequested : Bool
  cleanupConfirmed : Bool
  exitCode : Option ℤ
  signal : Option ℤ
  stdout : Option OutputStats
  stderr : Option OutputStats
  reason : Option String
  deriving DecidableEq

/-- The same message, whichever way its map is listed. -/
structure Execute.Same (a b : Execute) : Prop where
  operationId : a.operationId = b.operationId
  argv : a.argv = b.argv
  env : a.env.Perm b.env
  cwd : a.cwd = b.cwd
  deadline : a.deadlineUnixMs = b.deadlineUnixMs
  limit : a.outputLimit = b.outputLimit

namespace Context

def fromModel (v : GuestModel.Context) : Context :=
  { allocationId := v.allocationId.toString, generation := v.generation, bootId := v.bootId }

def tryInto (v : Context) : Except String GuestModel.Context := do
  ensure (0 < v.generation ∧ v.bootId.utf8ByteSize ≤ 64) "invalid guest context"
  let allocationId ← identity "invalid allocation identity" v.allocationId
  pure { allocationId, generation := v.generation, bootId := v.bootId }

/-- The boot may still be unknown: a first greeting leaves it empty. -/
structure Valid (v : GuestModel.Context) : Prop where
  generation : 0 < v.generation
  bootId : v.bootId.utf8ByteSize ≤ 64
  allocationId : v.allocationId.Minted

theorem tryInto_ok {w : Context} {v : GuestModel.Context} : w.tryInto = .ok v ↔ w = fromModel v ∧ Valid v := by
  unfold tryInto
  constructor
  · intro read
    obtain ⟨bounds, read⟩ := seq_ok.mp read
    obtain ⟨id, parsed, read⟩ := bind_ok.mp read
    obtain ⟨generation, boot⟩ := ensure_ok.mp bounds
    obtain ⟨text, minted⟩ := identity_ok.mp parsed
    cases pure_ok.mp read
    refine ⟨?_, generation, boot, minted⟩
    show w = ⟨id.toString, w.generation, w.bootId⟩
    rw [← text]
  · rintro ⟨rfl, valid⟩
    apply seq_ok.mpr
    refine ⟨ensure_ok.mpr ⟨valid.generation, valid.bootId⟩, ?_⟩
    apply bind_ok.mpr
    exact ⟨v.allocationId, identity_ok.mpr ⟨rfl, valid.allocationId⟩, rfl⟩

end Context

namespace Execute

def fromModel (v : GuestModel.Execute) : Execute :=
  { operationId := v.operationId.toString, argv := v.argv, env := Ordered.collect v.env, cwd := v.cwd,
    deadlineUnixMs := v.deadlineUnixMs, outputLimit := v.outputLimit,
    distinct := (Ordered.collect_sorted v.env).nodup }

def tryInto (enc : GuestModel.CommandEncoding) (v : Execute) : Except String GuestModel.Execute := do
  let operationId ← identity "invalid operation identity" v.operationId
  let result : GuestModel.Execute :=
    { operationId, argv := v.argv, env := Ordered.collect v.env, cwd := v.cwd,
      deadlineUnixMs := v.deadlineUnixMs, outputLimit := v.outputLimit }
  result.validate enc
  pure result

/-- The environment of a command is an ordered map. -/
structure Valid (enc : GuestModel.CommandEncoding) (v : GuestModel.Execute) : Prop where
  checked : v.validate enc = .ok ()
  operationId : v.operationId.Minted
  env : Ordered.Sorted v.env

theorem tryInto_ok {enc : GuestModel.CommandEncoding} {w : Execute} {v : GuestModel.Execute} :
    w.tryInto enc = .ok v ↔ w.Same (fromModel v) ∧ Valid enc v := by
  unfold tryInto
  constructor
  · intro read
    obtain ⟨id, parsed, read⟩ := bind_ok.mp read
    obtain ⟨checked, read⟩ := seq_ok.mp read
    obtain ⟨text, minted⟩ := identity_ok.mp parsed
    cases pure_ok.mp read
    have sorted := Ordered.collect_sorted w.env
    have listed : Ordered.collect (Ordered.collect w.env) = Ordered.collect w.env := sorted.collect (.refl _)
    refine ⟨⟨text, rfl, ?_, rfl, rfl, rfl⟩, checked, minted, sorted⟩
    show w.env.Perm (Ordered.collect (Ordered.collect w.env))
    rw [listed]
    exact (Ordered.collect_perm w.distinct).symm
  · rintro ⟨same, valid⟩
    have own : Ordered.collect v.env = v.env := valid.env.collect (.refl _)
    have perm : w.env.Perm v.env := by
      have listed := same.env
      rw [show (fromModel v).env = Ordered.collect v.env from rfl, own] at listed
      exact listed
    have built : (⟨v.operationId, w.argv, Ordered.collect w.env, w.cwd, w.deadlineUnixMs, w.outputLimit⟩ :
        GuestModel.Execute) = v := by
      rw [same.argv, same.cwd, same.deadline, same.limit, valid.env.collect perm]
      rfl
    apply bind_ok.mpr
    refine ⟨v.operationId, identity_ok.mpr ⟨same.operationId, valid.operationId⟩, ?_⟩
    rw [built]
    exact seq_ok.mpr ⟨valid.checked, rfl⟩

end Execute

namespace OutputStats

def fromModel (v : GuestModel.Output) : OutputStats := { seen := v.seen, stored := v.stored, truncated := v.truncated }

def into (v : OutputStats) : GuestModel.Output := { seen := v.seen, stored := v.stored, truncated := v.truncated }

theorem into_eq {w : OutputStats} {v : GuestModel.Output} : w.into = v ↔ w = fromModel v := by
  cases w
  cases v
  unfold into fromModel
  simp

end OutputStats

namespace Receipt

def states : List GuestModel.State := [.launchIntent, .exited, .timedOut, .cancelled, .unknown]

def fromModel (v : GuestModel.Receipt) : Receipt :=
  { version := v.version, context := some (.fromModel v.context), operationId := v.operationId.toString,
    digest := v.digest.toList, state := number states v.state, deadlineUnixMs := v.deadlineUnixMs,
    outputLimit := v.outputLimit, cancelRequested := v.cancelRequested, cleanupConfirmed := v.cleanupConfirmed,
    exitCode := v.exitCode, signal := v.signal, stdout := some (.fromModel v.stdout),
    stderr := some (.fromModel v.stderr), reason := v.reason }

def tryInto (v : Receipt) : Except String GuestModel.Receipt := do
  let context ← okOr v.context "missing receipt context"
  let context ← context.tryInto
  let operationId ← identity "invalid operation identity" v.operationId
  let digest ← GuestWire.digest "invalid receipt digest" v.digest
  let state ← enumeration states "unspecified receipt state" v.state
  let stdout ← okOr v.stdout "missing stdout stats"
  let stderr ← okOr v.stderr "missing stderr stats"
  let result : GuestModel.Receipt :=
    { version := v.version, context, operationId, digest, state, deadlineUnixMs := v.deadlineUnixMs,
      outputLimit := v.outputLimit, cancelRequested := v.cancelRequested, cleanupConfirmed := v.cleanupConfirmed,
      exitCode := v.exitCode, signal := v.signal, stdout := stdout.into, stderr := stderr.into, reason := v.reason }
  result.validate
  pure result

structure Valid (v : GuestModel.Receipt) : Prop where
  checked : v.validate = .ok ()
  operationId : v.operationId.Minted
  allocationId : v.context.allocationId.Minted

theorem Valid.context {v : GuestModel.Receipt} (valid : Valid v) : Context.Valid v.context := by
  obtain ⟨generation, _, boot⟩ := GuestModel.Receipt.validate_context valid.checked
  exact ⟨generation, boot, valid.allocationId⟩

theorem state_ok {n : ℤ} {state : GuestModel.State} :
    enumeration states "unspecified receipt state" n = .ok state ↔ n = number states state := by
  apply enumeration_ok
  · decide
  · intro a
    cases a <;> decide

theorem tryInto_ok {w : Receipt} {v : GuestModel.Receipt} : w.tryInto = .ok v ↔ w = fromModel v ∧ Valid v := by
  unfold tryInto
  constructor
  · intro read
    obtain ⟨message, present_, read⟩ := bind_ok.mp read
    obtain ⟨context, owner, read⟩ := bind_ok.mp read
    obtain ⟨id, parsed, read⟩ := bind_ok.mp read
    obtain ⟨digest, bytes, read⟩ := bind_ok.mp read
    obtain ⟨state, kind, read⟩ := bind_ok.mp read
    obtain ⟨stdout, out, read⟩ := bind_ok.mp read
    obtain ⟨stderr, err, read⟩ := bind_ok.mp read
    obtain ⟨checked, read⟩ := seq_ok.mp read
    obtain ⟨from_, owned⟩ := Context.tryInto_ok.mp owner
    obtain ⟨text, minted⟩ := identity_ok.mp parsed
    cases pure_ok.mp read
    refine ⟨?_, checked, minted, owned.allocationId⟩
    unfold fromModel
    dsimp only
    rw [← from_, ← okOr_ok.mp present_, ← text, ← digest_ok.mp bytes, ← state_ok.mp kind,
      ← OutputStats.into_eq.mp rfl, ← OutputStats.into_eq.mp rfl, ← okOr_ok.mp out, ← okOr_ok.mp err]
  · rintro ⟨rfl, valid⟩
    apply bind_ok.mpr
    refine ⟨_, okOr_ok.mpr rfl, bind_ok.mpr ⟨v.context, Context.tryInto_ok.mpr ⟨rfl, valid.context⟩, ?_⟩⟩
    apply bind_ok.mpr
    refine ⟨v.operationId, identity_ok.mpr ⟨rfl, valid.operationId⟩, bind_ok.mpr ⟨v.digest, digest_ok.mpr rfl, ?_⟩⟩
    apply bind_ok.mpr
    refine ⟨v.state, state_ok.mpr rfl, bind_ok.mpr ⟨_, okOr_ok.mpr rfl, bind_ok.mpr ⟨_, okOr_ok.mpr rfl, ?_⟩⟩⟩
    exact seq_ok.mpr ⟨valid.checked, rfl⟩

end Receipt
end HudsonSandbox.GuestWire
