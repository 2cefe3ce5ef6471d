import Mathlib.Data.List.Basic
import Mathlib.Data.List.Pairwise

/-!
# The versions of a stored object

What a bucket keeps under one key. A versioned bucket keeps what a write replaces under an
identity of its own; any other write replaces the null version. Versions go away one by one, by
their identities, and the newest that is left is what readers see.
-/

namespace HudsonSandbox.Objects
universe u v
variable {ι : Type u} {α : Type v}

/-- The identities that a bucket gives to versions. -/
structure Naming (ι : Type u) where
  null : ι
  name : ℕ → ι
  injective : Function.Injective name
  name_ne_null : ∀ n, name n ≠ null

inductive Versioning where
  | unversioned | enabled | suspended
  deriving DecidableEq, Repr

structure Version (ι : Type u) (α : Type v) where
  id : ι
  content : α
  deriving DecidableEq

/-- Newest first. `written` counts the writes so far. -/
structure Key (ι : Type u) (α : Type v) where
  versioning : Versioning
  versions : List (Version ι α)
  written : ℕ

namespace Key

def empty (versioning : Versioning) : Key ι α := ⟨versioning, [], 0⟩

def newest (key : Key ι α) : Option (Version ι α) := key.versions.head?

/-- Versioning is never taken back, only suspended. -/
def configure (key : Key ι α) (enabled : Bool) : Key ι α :=
  { key with versioning := if enabled then .enabled else .suspended }

variable [DecidableEq ι]

def find (key : Key ι α) (id : ι) : Option (Version ι α) := key.versions.find? fun v => v.id = id

def erase (key : Key ι α) (id : ι) : Key ι α :=
  { key with versions := key.versions.filter fun v => v.id ≠ id }

/-- The identity of the next write. -/
def fresh (naming : Naming ι) (key : Key ι α) : ι :=
  if key.versioning = .enabled then naming.name key.written else naming.null

/-- A write replaces the version of its own identity, if there is one. -/
def write (naming : Naming ι) (key : Key ι α) (content : α) : Key ι α where
  versioning := key.versioning
  versions := ⟨key.fresh naming, content⟩ :: (key.erase (key.fresh naming)).versions
  written := key.written + 1

end Key

/-! ### What every operation keeps -/

/-- No identity stands twice, and only numbers that have been given are taken. -/
structure Sound (naming : Naming ι) (key : Key ι α) : Prop where
  distinct : key.versions.Pairwise fun a b => a.id ≠ b.id
  numbered : ∀ v ∈ key.versions, v.id = naming.null ∨ ∃ n < key.written, v.id = naming.name n
  unversioned : key.versioning = .unversioned → ∀ v ∈ key.versions, v.id = naming.null

variable {naming : Naming ι} {key : Key ι α} {content : α} {id : ι} {v : Version ι α}

theorem Sound.empty (versioning : Versioning) : Sound naming (Key.empty versioning : Key ι α) :=
  ⟨.nil, List.forall_mem_nil _, fun _ => List.forall_mem_nil _⟩

theorem Sound.configure (sound : Sound naming key) (enabled : Bool) : Sound naming (key.configure enabled) := by
  refine ⟨sound.distinct, sound.numbered, fun never => ?_⟩
  cases enabled <;> cases never

theorem fresh_unversioned (off : key.versioning ≠ .enabled) : key.fresh naming = naming.null := if_neg off

/-- A bucket without versioning keeps one version of a key. -/
theorem Sound.single (sound : Sound naming key) (off : key.versioning = .unversioned) (seen : key.newest = some v) :
    key.versions = [v] := by
  obtain ⟨rest, same⟩ := List.head?_eq_some_iff.mp seen
  rw [same]
  cases rest with
  | nil => rfl
  | cons w rest =>
    have distinct := sound.distinct
    have null := sound.unversioned off
    rw [same] at distinct null
    refine absurd ?_ ((List.pairwise_cons.mp distinct).1 w List.mem_cons_self)
    rw [null v List.mem_cons_self, null w (List.mem_cons_of_mem _ List.mem_cons_self)]

section
variable [DecidableEq ι]

theorem Sound.erase (sound : Sound naming key) (id : ι) : Sound naming (key.erase id) := by
  have kept : (key.erase id).versions.Sublist key.versions := List.filter_sublist
  exact ⟨sound.distinct.sublist kept, fun v member => sound.numbered v (kept.subset member),
    fun off v member => sound.unversioned off v (kept.subset member)⟩

/-- Erasing another version does not change what readers see. -/
theorem newest_erase (seen : key.newest = some v) (differs : v.id ≠ id) : (key.erase id).newest = some v := by
  obtain ⟨rest, same⟩ := List.head?_eq_some_iff.mp seen
  unfold Key.newest Key.erase
  simp [same, differs]

theorem newest_write : (key.write naming content).newest = some ⟨key.fresh naming, content⟩ := rfl

theorem Sound.write (sound : Sound naming key) (content : α) : Sound naming (key.write naming content) := by
  have rest := sound.erase (key.fresh naming)
  refine ⟨List.pairwise_cons.mpr ⟨fun v member same => ?_, rest.distinct⟩, fun v member => ?_, fun off v member => ?_⟩
  · exact of_decide_eq_true (List.mem_filter.mp member).2 same.symm
  · rcases List.mem_cons.mp member with rfl | old
    · unfold Key.fresh
      split
      · exact .inr ⟨key.written, Nat.lt_succ_self _, rfl⟩
      · exact .inl rfl
    · exact (rest.numbered v old).imp_right fun given =>
        ⟨given.choose, Nat.lt_succ_of_lt given.choose_spec.1, given.choose_spec.2⟩
  · have never : key.versioning ≠ .enabled := by
      intro on
      cases on.symm.trans off
    rcases List.mem_cons.mp member with rfl | old
    · exact fresh_unversioned never
    · exact rest.unversioned off v old

end

/-! ### Keys that are written once and sealed once -/

/-- Nothing, one value, or a mark in front of at most one value, which it replaced. -/
inductive Shape (Mark : α → Prop) (replaced : Version ι α → Version ι α → Prop) : List (Version ι α) → Prop
  | empty : Shape Mark replaced []
  | stored {v : Version ι α} : ¬Mark v.content → Shape Mark replaced [v]
  | alone {s : Version ι α} : Mark s.content → Shape Mark replaced [s]
  | sealed {s v : Version ι α} : Mark s.content → ¬Mark v.content → replaced s v → Shape Mark replaced [s, v]

section
variable {Mark : α → Prop} {replaced : Version ι α → Version ι α → Prop}

theorem newest_none (absent : key.newest = none) : key.versions = [] := List.head?_eq_none_iff.mp absent

/-- What is under a key whose newest version is no mark. -/
theorem Shape.unsealed (shape : Shape Mark replaced key.versions) (seen : key.newest = some v) (plain : ¬Mark v.content) :
    key.versions = [v] := by
  obtain ⟨rest, same⟩ := List.head?_eq_some_iff.mp seen
  rw [same] at shape ⊢
  cases shape with
  | stored _ => rfl
  | alone sealed => exact absurd sealed plain
  | sealed sealed _ _ => exact absurd sealed plain

/-- What is under a key whose newest version is a mark. -/
theorem Shape.of_sealed (shape : Shape Mark replaced key.versions) (seen : key.newest = some v) (sealed : Mark v.content) :
    key.versions = [v] ∨ ∃ w, key.versions = [v, w] ∧ ¬Mark w.content ∧ replaced v w := by
  obtain ⟨rest, same⟩ := List.head?_eq_some_iff.mp seen
  rw [same] at shape ⊢
  cases shape with
  | stored plain => exact absurd sealed plain
  | alone _ => exact .inl rfl
  | sealed _ plain above => exact .inr ⟨_, rfl, plain, above⟩

variable [DecidableEq ι]

theorem Shape.write_first (absent : key.newest = none) : Shape Mark replaced (key.write naming content).versions := by
  have none : (key.write naming content).versions = [⟨key.fresh naming, content⟩] := by
    unfold Key.write Key.erase
    rw [newest_none absent]
    rfl
  rw [none]
  by_cases sealed : Mark content
  · exact .alone sealed
  · exact .stored sealed

theorem Shape.write_seal (alone : key.versions = [v]) (plain : ¬Mark v.content) (sealed : Mark content)
    (above : replaced ⟨key.fresh naming, content⟩ v) : Shape Mark replaced (key.write naming content).versions := by
  unfold Key.write Key.erase
  rw [alone]
  by_cases same : v.id = key.fresh naming
  · rw [List.filter_cons_of_neg (by simp [same])]
    exact .alone sealed
  · rw [List.filter_cons_of_pos (by simp [same])]
    exact .sealed sealed plain above

theorem Shape.erase (shape : Shape Mark replaced key.versions) (seen : key.newest = some v) (sealed : Mark v.content)
    (differs : v.id ≠ id) : Shape Mark replaced (key.erase id).versions := by
  unfold Key.erase
  rcases shape.of_sealed seen sealed with alone | ⟨w, both, plain, above⟩
  · rw [alone, List.filter_cons_of_pos (by simp [differs])]
    exact .alone sealed
  · rw [both, List.filter_cons_of_pos (by simp [differs])]
    by_cases same : w.id = id
    · rw [List.filter_cons_of_neg (by simp [same])]
      exact .alone sealed
    · rw [List.filter_cons_of_pos (by simp [same])]
      exact .sealed sealed plain above

end
end HudsonSandbox.Objects
