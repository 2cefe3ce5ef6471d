import HudsonSandbox.Library.Utf8
import HudsonSandbox.Sources.Plan

/-!
# Workspace paths

The check of a path relative to the workspace, and what it accepts: on the bytes of the path, as a file
system splits them, every component is the name of an entry and the first is not the guest's own directory.
-/

namespace HudsonSandbox.Files
open Checked

def validatePath (path : List Char) : Except String Unit := do
  ensure (path ≠ [] ∧ byteLength path ≤ 4096) "invalid file path length"
  ensure ((∀ b ∈ Utf8.encode path, ¬(b < 32 ∨ b = 127 ∨ b = 92)) ∧
    (∀ part ∈ path.splitOn '/', ValidComponent part) ∧ (path.splitOn '/').head? ≠ some STATE_DIRECTORY)
    "invalid workspace-relative file path"

theorem plain_bytes {path : List Char} : (∀ b ∈ Utf8.encode path, ¬(b < 32 ∨ b = 127 ∨ b = 92)) ↔
    ∀ c ∈ path, ¬(c.toNat < 32 ∨ c.toNat = 127 ∨ c = '\\') := by
  have bytes : ∀ b : UInt8, (b < 32 ∨ b = 127 ∨ b = 92) ↔ (b.toNat < 32 ∨ b.toNat = 127 ∨ b.toNat = 92) := by
    intro b
    rw [UInt8.lt_iff_toNat_lt, ← UInt8.toNat_inj, ← UInt8.toNat_inj]
    rfl
  have chars : ∀ c : Char, (c.toNat < 32 ∨ c.toNat = 127 ∨ c = '\\') ↔ (c.toNat < 32 ∨ c.toNat = 127 ∨ c.toNat = 92) := by
    intro c
    rw [← Char.toNat_inj]
    rfl
  have ascii : ∀ n, (n < 32 ∨ n = 127 ∨ n = 92) → n < 128 := by
    intro n bad
    omega
  simp only [bytes, chars]
  exact Utf8.forall_encode ascii

theorem validatePath_ok {path : List Char} : validatePath path = .ok () ↔ ValidPath path := by
  unfold validatePath ValidPath
  rw [seq_ok, ensure_ok, ensure_ok, plain_bytes]

/-! ### Accepted bytes -/

/-- The name of an entry of a directory, of at most 255 bytes. -/
def EntryName (part : List UInt8) : Prop :=
  part ≠ [] ∧ part ≠ [46] ∧ part ≠ [46, 46] ∧ part.length ≤ 255

def stateDirectory : List UInt8 := Utf8.encode STATE_DIRECTORY

/-- The components of a path, split at its slashes. -/
def components (path : List UInt8) : List (List UInt8) := path.splitOn 47

structure Accepted (path : List UInt8) : Prop where
  length : 1 ≤ path.length ∧ path.length ≤ 4096
  plain : ∀ b ∈ path, ¬(b < 32 ∨ b = 127 ∨ b = 92)
  names : ∀ part ∈ components path, EntryName part
  outside : (components path).head? ≠ some stateDirectory

theorem byteLength_eq (path : List Char) : byteLength path = (Utf8.encode path).length := (Utf8.encode_length path).symm

theorem components_encode (path : List Char) : components (Utf8.encode path) = (path.splitOn '/').map Utf8.encode := by
  have ascii : '/'.toNat < 128 := by decide
  exact Utf8.splitOn_encode ascii path

theorem entryName_encode {part : List Char} : EntryName (Utf8.encode part) ↔ ValidComponent part := by
  have plain : ∀ c ∈ ['.', '.'], c.toNat < 128 := by decide
  have dot : Utf8.encode part = Utf8.encode ['.'] ↔ part = ['.'] :=
    Utf8.encode_eq_ascii fun c member => plain c (List.mem_cons_of_mem '.' member)
  have dots : Utf8.encode part = Utf8.encode ['.', '.'] ↔ part = ['.', '.'] := Utf8.encode_eq_ascii plain
  rw [show Utf8.encode ['.'] = [46] from rfl] at dot
  rw [show Utf8.encode ['.', '.'] = [46, 46] from rfl] at dots
  unfold EntryName ValidComponent
  rw [byteLength_eq, ne_eq, ne_eq, ne_eq, dot, dots, Utf8.encode_ne_nil]

theorem state_encode {part : List Char} : Utf8.encode part = stateDirectory ↔ part = STATE_DIRECTORY :=
  Utf8.encode_eq_ascii (by decide)

/-- The check accepts a text by its bytes. -/
theorem validatePath_accepted {path : List Char} : validatePath path = .ok () ↔ Accepted (Utf8.encode path) := by
  have some_ : path ≠ [] ↔ 1 ≤ (Utf8.encode path).length := by
    rw [← not_iff_not, not_not, ← Utf8.encode_ne_nil, ← List.length_eq_zero_iff]
    omega
  have names : (∀ part ∈ components (Utf8.encode path), EntryName part) ↔ ∀ part ∈ path.splitOn '/', ValidComponent part := by
    rw [components_encode, List.forall_mem_map]
    simp only [entryName_encode]
  have first : (components (Utf8.encode path)).head? ≠ some stateDirectory ↔ (path.splitOn '/').head? ≠ some STATE_DIRECTORY := by
    rw [components_encode, List.head?_map, ne_eq, ne_eq, Option.map_eq_some_iff]
    simp only [state_encode, exists_eq_right]
  unfold validatePath
  rw [seq_ok, ensure_ok, ensure_ok, some_, byteLength_eq, ← names, ← first]
  constructor
  · rintro ⟨length, plain, names, outside⟩
    exact ⟨length, plain, names, outside⟩
  · intro accepted
    exact ⟨accepted.length, accepted.plain, accepted.names, accepted.outside⟩

/-- The components of a path give it back. -/
theorem components_injective : Function.Injective components := by
  intro a b same
  have joined : ∀ path, [47].intercalate (components path) = path := fun path => List.intercalate_splitOn 47
  rw [← joined a, ← joined b, same]

end HudsonSandbox.Files
