import Mathlib.Order.Fin.Basic
import Mathlib.Data.List.Pairwise

/-!
# Binary search

The halving search of a slice by a key. On strictly ascending keys it finds the one element
with the key, and otherwise reports that there is none.
-/

namespace HudsonSandbox.Search
variable {α κ : Type*} [LinearOrder κ]

/-- The window `[base, base + size)` shrinks to one element: its right half is kept exactly
when the probed element is not greater than the target. -/
def narrow (entries : List α) (key : α → κ) (target : κ) (base size : ℕ)
    (bound : base + size ≤ entries.length) (positive : 0 < size) : Fin entries.length :=
  if wide : 1 < size then
    let half := size / 2
    let mid : Fin entries.length := ⟨base + half, by omega⟩
    if target < key entries[mid] then
      narrow entries key target base (size - half) (by omega) (by omega)
    else narrow entries key target mid (size - half) (by simp only [mid]; omega) (by omega)
  else ⟨base, by omega⟩
termination_by size

/-- `none` stands for every insertion point: no caller reads it. -/
def binarySearchByKey (entries : List α) (key : α → κ) (target : κ) :
    Option (Fin entries.length) :=
  if positive : 0 < entries.length then
    let base := narrow entries key target 0 entries.length (by omega) positive
    if key entries[base] = target then some base else none
  else none

/-- Keys that grow along the list, so no two elements share one. -/
def Ascending (entries : List α) (key : α → κ) : Prop :=
  entries.Pairwise fun a b => key a < key b

theorem Ascending.lt {entries : List α} {key : α → κ} (sorted : Ascending entries key)
    {i j : Fin entries.length} (before : i < j) : key entries[i] < key entries[j] :=
  List.pairwise_iff_getElem.mp sorted i j i.isLt j.isLt before

theorem Ascending.index_unique {entries : List α} {key : α → κ} (sorted : Ascending entries key)
    {i j : Fin entries.length} (same : key entries[i] = key entries[j]) : i = j := by
  rcases lt_trichotomy i j with before | equal | after
  · exact absurd same (sorted.lt before).ne
  · exact equal
  · exact absurd same (sorted.lt after).ne'

end HudsonSandbox.Search
