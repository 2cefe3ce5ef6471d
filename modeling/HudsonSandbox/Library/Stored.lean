import Mathlib.Order.Basic

/-!
# Files that are replaced by a rename

A file is replaced by writing a staging file, renaming it and syncing the directory. Until the
directory is synced, readers see the new contents while a power loss may still bring back the old.
-/

namespace HudsonSandbox
universe u

/-- What readers see of a file, and what it falls back to when the power is lost now. -/
structure Stored (α : Type u) where
  visible : α
  settled : α
  deriving DecidableEq

namespace Stored
variable {α : Type u} {P Q : α → Prop} {file : Stored α} {value : α}

/-- How one save ends. -/
inductive Write where
  | done
  /-- It failed before the rename. -/
  | lost
  /-- It failed after the rename and before the sync. -/
  | unsynced
  deriving DecidableEq, Repr

def of (value : α) : Stored α := ⟨value, value⟩

def write (file : Stored α) (value : α) : Write → Stored α
  | .done => .of value
  | .lost => file
  | .unsynced => ⟨value, file.settled⟩

def sync (file : Stored α) : Stored α := .of file.visible

/-- What a crash leaves, depending on whether the last rename survives it. -/
def recover (file : Stored α) (survives : Bool) : Stored α :=
  .of (if survives then file.visible else file.settled)

/-- The property holds of the contents, whichever of the two a crash leaves. -/
def Always (P : α → Prop) (file : Stored α) : Prop := P file.visible ∧ P file.settled

theorem Always.of (holds : P value) : (Stored.of value).Always P := ⟨holds, holds⟩

theorem Always.imp (always : file.Always P) (step : ∀ value, P value → Q value) : file.Always Q :=
  ⟨step _ always.1, step _ always.2⟩

theorem Always.write (always : file.Always P) (holds : P value) (outcome : Write) :
    (file.write value outcome).Always P := by
  cases outcome with
  | done => exact .of holds
  | lost => exact always
  | unsynced => exact ⟨holds, always.2⟩

theorem Always.sync (always : file.Always P) : file.sync.Always P := .of always.1

theorem Always.recover (always : file.Always P) (survives : Bool) :
    (file.recover survives).Always P := by
  cases survives with
  | true => exact .of always.1
  | false => exact .of always.2

end Stored
end HudsonSandbox
