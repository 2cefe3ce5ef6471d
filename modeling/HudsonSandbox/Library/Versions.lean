import HudsonSandbox.Library.Stored

/-!
# Changes that reach the disk in order

A directory is changed in place. Until it is synced, a power loss may take back any number of the
last changes; what stays is what it was at some moment since the last sync.
-/

namespace HudsonSandbox
universe u

/-- What the last sync left, and what each change since then made of it, oldest first. -/
structure Versions (α : Type u) where
  settled : α
  pending : List α
  deriving DecidableEq

namespace Versions
open Stored (Write)
variable {α : Type u} {P Q : α → Prop} {file : Versions α} {value : α}

def of (value : α) : Versions α := ⟨value, []⟩

def all (file : Versions α) : List α := file.settled :: file.pending

def visible (file : Versions α) : α := file.pending.getLast?.getD file.settled

def sync (file : Versions α) : Versions α := .of file.visible

/-- One change and the sync after it, and where they may end. -/
def write (file : Versions α) (value : α) : Write → Versions α
  | .done => .of value
  | .lost => file
  | .unsynced => ⟨file.settled, file.pending ++ [value]⟩

/-- What a crash leaves when the first `kept` changes reached the disk. -/
def recover (file : Versions α) (kept : ℕ) : Versions α := .of (file.all[kept]?.getD file.visible)

/-- The property holds of the contents, whatever a crash takes back. -/
def Always (P : α → Prop) (file : Versions α) : Prop := ∀ value ∈ file.all, P value

theorem visible_of : (of value).visible = value := rfl

theorem visible_unsynced : (file.write value .unsynced).visible = value := by
  simp [visible, write]

theorem visible_mem : file.visible ∈ file.all := by
  unfold visible all
  cases last : file.pending.getLast? with
  | none => exact List.mem_cons_self
  | some value => exact List.mem_cons_of_mem _ (List.mem_of_getLast? last)

theorem Always.visible (always : file.Always P) : P file.visible := always _ visible_mem

theorem Always.of (holds : P value) : (Versions.of value).Always P := by
  intro other within
  rw [List.mem_singleton.mp within]
  exact holds

theorem Always.imp (always : file.Always P) (step : ∀ value, P value → Q value) : file.Always Q :=
  fun value within => step value (always value within)

theorem Always.sync (always : file.Always P) : file.sync.Always P := .of always.visible

theorem Always.write (always : file.Always P) (holds : P value) (outcome : Write) :
    (file.write value outcome).Always P := by
  cases outcome with
  | done => exact .of holds
  | lost => exact always
  | unsynced =>
    intro other within
    have listed : other ∈ file.all ++ [value] := within
    rcases List.mem_append.mp listed with old | new
    · exact always other old
    · rw [List.mem_singleton.mp new]
      exact holds

theorem Always.recover (always : file.Always P) (kept : ℕ) : (file.recover kept).Always P := by
  refine .of ?_
  cases found : file.all[kept]? with
  | none => exact always.visible
  | some value => exact always value (List.mem_of_getElem? found)

end Versions
end HudsonSandbox
