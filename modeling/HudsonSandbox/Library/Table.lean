import Mathlib.Algebra.BigOperators.Group.List.Basic
import Mathlib.Algebra.Order.Ring.Int
import Mathlib.Data.List.Basic

/-!
# Tables with a primary key

A table is the list of its rows. Lookup goes by key, an update changes the rows of one key in
place, and an insert appends a row whose key is new.
-/

namespace HudsonSandbox.Table
variable {κ α : Type*} [DecidableEq κ] {key : α → κ} {rows : List α} {row found : α} {k other : κ}
  {change : α → α}

def find (key : α → κ) (rows : List α) (k : κ) : Option α := rows.find? fun row => key row = k

/-- `UPDATE table SET … WHERE key = k` -/
def update (key : α → κ) (rows : List α) (k : κ) (change : α → α) : List α :=
  rows.map fun row => if key row = k then change row else row

@[simp] theorem find_nil : find key [] k = none := rfl

theorem find_cons : find key (row :: rows) k = if key row = k then some row else find key rows k := by
  unfold find
  by_cases same : key row = k <;> simp [same]

theorem find_key (h : find key rows k = some row) : key row = k := by
  simpa using List.find?_some h

theorem find_mem (h : find key rows k = some row) : row ∈ rows := List.mem_of_find?_eq_some h

theorem find_update (keeps : ∀ row, key (change row) = key row) :
    find key (update key rows k change) k = (find key rows k).map change := by
  induction rows with
  | nil => rfl
  | cons row rows ih =>
    have step : update key (row :: rows) k change =
        (if key row = k then change row else row) :: update key rows k change := rfl
    rw [step, find_cons, find_cons, ih]
    by_cases same : key row = k
    · simp [same, keeps]
    · simp [same]

theorem find_update_of_ne (keeps : ∀ row, key (change row) = key row) (different : other ≠ k) :
    find key (update key rows k change) other = find key rows other := by
  induction rows with
  | nil => rfl
  | cons row rows ih =>
    have step : update key (row :: rows) k change =
        (if key row = k then change row else row) :: update key rows k change := rfl
    rw [step, find_cons, find_cons, ih]
    by_cases same : key row = k
    · have apart : key row ≠ other := fun hit => different (hit.symm.trans same)
      simp [same, keeps, different.symm]
    · simp [same]

/-- Appending a row whose key is new leaves every other lookup as it was. -/
theorem find_insert (fresh : find key rows (key row) = none) :
    find key (rows ++ [row]) k = if key row = k then some row else find key rows k := by
  induction rows with
  | nil => simp [find_cons]
  | cons head rows ih =>
    rw [find_cons] at fresh
    by_cases taken : key head = key row
    · simp [taken] at fresh
    · rw [if_neg taken] at fresh
      rw [List.cons_append, find_cons, find_cons, ih fresh]
      by_cases same : key head = k
      · have apart : key row ≠ k := fun hit => taken (same.trans hit.symm)
        simp [same, apart]
      · simp [same]

/-- A row that is found is found again behind appended rows. -/
theorem find_append {more : List α} (h : find key rows k = some row) :
    find key (rows ++ more) k = some row := by
  unfold find at h ⊢
  rw [List.find?_append, h]
  rfl

theorem mem_update : row ∈ update key rows k change ↔
    ∃ old ∈ rows, (if key old = k then change old else old) = row := by
  simp [update]

theorem find_map {write : α → α} (keeps : ∀ row, key (write row) = key row) :
    find key (rows.map write) k = (find key rows k).map write := by
  induction rows with
  | nil => rfl
  | cons row rows ih =>
    rw [List.map_cons, find_cons, find_cons, ih, keeps]
    split <;> rfl

theorem find_eq_none : find key rows k = none ↔ k ∉ rows.map key := by
  simp [find]

theorem find_of_mem (unique : (rows.map key).Nodup) (held : row ∈ rows) :
    find key rows (key row) = some row := by
  induction rows with
  | nil => cases held
  | cons head rows ih =>
    rw [List.map_cons, List.nodup_cons] at unique
    rw [find_cons]
    rcases List.mem_cons.mp held with rfl | later
    · exact if_pos rfl
    · have apart : key head ≠ key row := by
        intro same
        exact unique.1 (same ▸ List.mem_map_of_mem later)
      rw [if_neg apart]
      exact ih unique.2 later

omit [DecidableEq κ] in
/-- Rows that agree on the key are one row. -/
theorem filter_length_le_one {p : α → Bool} (unique : (rows.map key).Nodup)
    (same : ∀ row, p row = true → key row = k) : (rows.filter p).length ≤ 1 := by
  have distinct : ((rows.filter p).map key).Nodup :=
    unique.sublist (List.filter_sublist.map key)
  have agree : ∀ row ∈ rows.filter p, key row = k := fun row held => same row (List.mem_filter.mp held).2
  cases found : rows.filter p with
  | nil => exact Nat.zero_le 1
  | cons first rest =>
    cases rest with
    | nil => exact Nat.le_refl 1
    | cons second rest =>
      rw [found] at distinct agree
      have both : key first = key second :=
        (agree first List.mem_cons_self).trans
          (agree second (List.mem_cons_of_mem _ List.mem_cons_self)).symm
      exact absurd (both ▸ List.mem_cons_self) (List.nodup_cons.mp distinct).1

/-- Columns that an update leaves alone. -/
theorem map_update {β : Type*} {column : α → β} (keeps : ∀ row, column (change row) = column row) :
    (update key rows k change).map column = rows.map column := by
  unfold update
  rw [List.map_map]
  refine List.map_congr_left fun row _ => ?_
  show column (if key row = k then change row else row) = column row
  split
  · exact keeps row
  · rfl

/-! ### Sums -/

/-- `SELECT sum(weight) FROM table WHERE p` -/
def total (p : α → Prop) [DecidablePred p] (weight : α → ℤ) (rows : List α) : ℤ :=
  ((rows.filter fun row => p row).map weight).sum

section Total
variable {p : α → Prop} [DecidablePred p] {weight : α → ℤ}

@[simp] theorem total_nil : total p weight [] = 0 := rfl

theorem total_cons : total p weight (row :: rows) =
    (if p row then weight row else 0) + total p weight rows := by
  unfold total
  by_cases held : p row <;> simp [held]

theorem total_append {more : List α} :
    total p weight (rows ++ more) = total p weight rows + total p weight more := by
  simp [total]

/-- A change of rows that adds none to the sum and keeps their weights does not raise it. -/
theorem total_map_le {write : α → α} (positive : ∀ row ∈ rows, 0 ≤ weight row)
    (keeps : ∀ row ∈ rows, weight (write row) = weight row ∧ (p (write row) → p row)) :
    total p weight (rows.map write) ≤ total p weight rows := by
  induction rows with
  | nil => exact le_refl 0
  | cons row rows ih =>
    have rest := ih (fun row held => positive row (List.mem_cons_of_mem _ held))
      fun row held => keeps row (List.mem_cons_of_mem _ held)
    have own := positive row List.mem_cons_self
    obtain ⟨weighs, stays⟩ := keeps row List.mem_cons_self
    rw [List.map_cons, total_cons, total_cons, weighs]
    by_cases before : p row
    · rw [if_pos before]
      split <;> omega
    · rw [if_neg before, if_neg fun after => before (stays after)]
      omega

theorem total_nonneg (positive : ∀ row ∈ rows, 0 ≤ weight row) : 0 ≤ total p weight rows := by
  induction rows with
  | nil => exact le_refl 0
  | cons row rows ih =>
    have rest := ih fun row held => positive row (List.mem_cons_of_mem _ held)
    have own := positive row List.mem_cons_self
    rw [total_cons]
    split <;> omega

theorem total_eq_zero (none_ : ∀ row ∈ rows, ¬p row) : total p weight rows = 0 := by
  unfold total
  have empty : (rows.filter fun row => p row) = [] := by
    simpa using none_
  rw [empty]
  rfl

end Total
end HudsonSandbox.Table
