import Mathlib.Algebra.Order.BigOperators.Group.List
import Mathlib.Algebra.Order.Ring.Nat
import Mathlib.Data.List.AList

/-!
# Sums over association lists

A budget kept over a finite map is a sum over its values. Inserting a fresh key adds to it,
replacing a value moves it by the difference, and erasing keys never raises it.
-/

namespace HudsonSandbox.Maps
variable {α : Type*} {V : Type*} [DecidableEq α] {map : AList fun _ : α => V} {key : α} {old new : V}

def total (f : V → ℕ) (map : AList fun _ : α => V) : ℕ := (map.entries.map fun entry => f entry.2).sum

theorem total_insert (f : V → ℕ) :
    total f (map.insert key new) = f new + total f (map.erase key) := by
  have erased : (map.erase key).entries = map.entries.kerase key := rfl
  simp [total, AList.entries_insert, erased]

theorem erase_of_notMem (absent : key ∉ map) : map.erase key = map :=
  AList.ext (List.kerase_of_notMem_keys absent)

theorem total_insert_absent (f : V → ℕ) (absent : key ∉ map) :
    total f (map.insert key new) = f new + total f map := by
  rw [total_insert, erase_of_notMem absent]

theorem total_erase (f : V → ℕ) (found : map.lookup key = some old) :
    f old + total f (map.erase key) = total f map := by
  have member := AList.mem_lookup_iff.mp (Option.mem_def.mpr found)
  obtain ⟨value, before, after, _, same, erased⟩ :=
    List.exists_of_kerase (List.mem_keys_of_mem member)
  have also : ⟨key, value⟩ ∈ map.entries := by rw [same]; simp
  obtain rfl := Option.some.inj (found.symm.trans (AList.mem_lookup_iff.mpr also))
  have kept : (map.erase key).entries = before ++ after := erased
  simp only [total, kept, same, List.map_append, List.map_cons, List.sum_append, List.sum_cons]
  omega

/-- Replacing a value moves the sum by the difference of the two. -/
theorem total_replace (f : V → ℕ) (new : V) (found : map.lookup key = some old) :
    total f (map.insert key new) + f old = total f map + f new := by
  have erased := total_erase f found
  rw [total_insert]
  omega

omit [DecidableEq α] in
theorem total_sublist (f : V → ℕ) {fewer : AList fun _ : α => V}
    (sublist : fewer.entries.Sublist map.entries) : total f fewer ≤ total f map :=
  (sublist.map _).sum_le_sum fun _ _ => Nat.zero_le _

omit [DecidableEq α] in
theorem subperm_subset {fewer : AList fun _ : α => V} (subset : fewer.entries ⊆ map.entries) :
    fewer.entries.Subperm map.entries :=
  List.subperm_of_subset fewer.nodupKeys.nodup subset

omit [DecidableEq α] in
theorem total_subset (f : V → ℕ) {fewer : AList fun _ : α => V}
    (subset : fewer.entries ⊆ map.entries) : total f fewer ≤ total f map := by
  obtain ⟨part, same, within⟩ := subperm_subset subset
  rw [total, ← (same.map _).sum_eq]
  exact (within.map _).sum_le_sum fun _ _ => Nat.zero_le _

omit [DecidableEq α] in
theorem total_one : total (fun _ => 1) map = map.entries.length := by
  simp [total]

/-- Change every value and no key. -/
def mapValues (change : V → V) (map : AList fun _ : α => V) : AList fun _ : α => V where
  entries := map.entries.map (.map id fun _ => change)
  nodupKeys := map.nodupKeys.map₂ fun _ => change

@[simp] theorem lookup_mapValues (change : V → V) (map : AList fun _ : α => V) (key : α) :
    (mapValues change map).lookup key = (map.lookup key).map change :=
  List.dlookup_map₂ key

omit [DecidableEq α] in
theorem total_mapValues (f : V → ℕ) {change : V → V} (same : ∀ value, f (change value) = f value) :
    total f (mapValues change map) = total f map := by
  have values : (mapValues change map).entries = map.entries.map (.map id fun _ => change) := rfl
  have counted : (fun entry : Σ _ : α, V => f entry.2) ∘ (Sigma.map id fun _ => change) =
      fun entry => f entry.2 := funext fun entry => same entry.2
  rw [total, values, List.map_map, counted, total]

/-- What is found after an insertion is what was inserted or was there. -/
theorem lookup_insert_some {other : α} {value : V} (found : (map.insert key new).lookup other = some value) :
    (other = key ∧ value = new) ∨ (other ≠ key ∧ map.lookup other = some value) := by
  by_cases same : other = key
  · subst same
    rw [AList.lookup_insert] at found
    exact .inl ⟨rfl, (Option.some.inj found).symm⟩
  · rw [AList.lookup_insert_ne same] at found
    exact .inr ⟨same, found⟩

/-- Change every value, each under its own key. -/
def mapKeyed (change : α → V → V) (map : AList fun _ : α => V) : AList fun _ : α => V where
  entries := map.entries.map (.map id change)
  nodupKeys := map.nodupKeys.map₂ change

theorem lookup_mapKeyed (change : α → V → V) (map : AList fun _ : α => V) (key : α) :
    (mapKeyed change map).lookup key = (map.lookup key).map (change key) :=
  List.dlookup_map₂ key

/-- Keep the entries of some keys only. -/
def retain (keep : α → Bool) (map : AList fun _ : α => V) : AList fun _ : α => V where
  entries := map.entries.filter fun entry => keep entry.1
  nodupKeys := map.nodupKeys.sublist List.filter_sublist

theorem lookup_retain (keep : α → Bool) {map : AList fun _ : α => V} {key : α} {value : V} :
    (retain keep map).lookup key = some value ↔ map.lookup key = some value ∧ keep key = true := by
  have found : ∀ {other : AList fun _ : α => V}, other.lookup key = some value ↔ ⟨key, value⟩ ∈ other.entries :=
    fun {other} => AList.mem_lookup_iff
  rw [found, found]
  exact List.mem_filter

/-- Keep the entries of some values only. -/
def filterValues (keep : V → Bool) (map : AList fun _ : α => V) : AList fun _ : α => V where
  entries := map.entries.filter fun entry => keep entry.2
  nodupKeys := map.nodupKeys.sublist List.filter_sublist

theorem lookup_filterValues (keep : V → Bool) {map : AList fun _ : α => V} {key : α} {value : V} :
    (filterValues keep map).lookup key = some value ↔ map.lookup key = some value ∧ keep value = true := by
  have found : ∀ {other : AList fun _ : α => V}, other.lookup key = some value ↔ ⟨key, value⟩ ∈ other.entries :=
    fun {other} => AList.mem_lookup_iff
  rw [found, found]
  exact List.mem_filter

/-- Change the value of one key. -/
def modify (key : α) (change : V → V) (map : AList fun _ : α => V) : AList fun _ : α => V :=
  mapKeyed (fun k value => if k = key then change value else value) map

theorem lookup_modify (change : V → V) (key : α) (map : AList fun _ : α => V) :
    (modify key change map).lookup key = (map.lookup key).map change := by
  unfold modify
  rw [lookup_mapKeyed]
  simp

theorem lookup_modify_ne {other : α} (change : V → V) (different : other ≠ key) :
    (modify key change map).lookup other = map.lookup other := by
  unfold modify
  rw [lookup_mapKeyed]
  simp [different]

/-- What is found after a change is what was changed or was there. -/
theorem lookup_modify_some {change : V → V} {other : α} {value : V}
    (found : (modify key change map).lookup other = some value) :
    (other = key ∧ ∃ old, map.lookup key = some old ∧ change old = value) ∨
      (other ≠ key ∧ map.lookup other = some value) := by
  by_cases same : other = key
  · subst same
    rw [lookup_modify] at found
    exact .inl ⟨rfl, Option.map_eq_some_iff.mp found⟩
  · rw [lookup_modify_ne change same] at found
    exact .inr ⟨same, found⟩

theorem total_modify (f : V → ℕ) {change : V → V} (same : ∀ value, f (change value) = f value) :
    total f (modify key change map) = total f map := by
  have values : (modify key change map).entries =
    map.entries.map (.map id fun k value => if k = key then change value else value) := rfl
  rw [total, values, List.map_map, total]
  refine congrArg List.sum (List.map_congr_left ?_)
  intro entry _
  show f (if entry.1 = key then change entry.2 else entry.2) = f entry.2
  by_cases this : entry.1 = key
  · rw [if_pos this, same]
  · rw [if_neg this]

end HudsonSandbox.Maps
