import Mathlib.Data.List.Sort
import Mathlib.Order.Basic

/-!
# Keyset pages

A table is read in descending order of a key, a bounded number of rows at a time: the next page starts below
the last key of the one before. Rows that are added above everything that was there are in no later page, and
move no row from one page to another.
-/

namespace HudsonSandbox.Keyset
variable {α κ : Type*} [LinearOrder κ] {key : α → κ} {rows more : List α} {p : κ} {count : ℕ}

/-- `ORDER BY key DESC` -/
def descending (key : α → κ) (rows : List α) : List α := rows.mergeSort fun a b => decide (key b ≤ key a)

/-- `WHERE key < p`, where there is a position. -/
def below (key : α → κ) (p : Option κ) (rows : List α) : List α := rows.filter fun r => ∀ k ∈ p, key r < k

/-- The rows of one page. -/
def fetch (key : α → κ) (p : Option κ) (count : ℕ) (rows : List α) : List α := (descending key (below key p rows)).take count

/-- Strictly descending, so no key twice. -/
def Descending (key : α → κ) (rows : List α) : Prop := rows.Pairwise fun a b => key b < key a

theorem mem_descending {r : α} : r ∈ descending key rows ↔ r ∈ rows := List.mem_mergeSort

theorem mem_below {p : Option κ} {r : α} : r ∈ below key p rows ↔ r ∈ rows ∧ ∀ k ∈ p, key r < k := by
  unfold below
  rw [List.mem_filter, decide_eq_true_iff]

theorem descending_sorted (distinct : (rows.map key).Nodup) : Descending key (descending key rows) := by
  have weak : (descending key rows).Pairwise fun a b => decide (key b ≤ key a) = true := by
    apply List.pairwise_mergeSort
    · intro a b c first second
      exact decide_eq_true ((of_decide_eq_true second).trans (of_decide_eq_true first))
    · intro a b
      rw [Bool.or_eq_true, decide_eq_true_iff, decide_eq_true_iff]
      exact le_total _ _
  have apart : ((descending key rows).map key).Nodup := ((List.mergeSort_perm rows _).map key).nodup_iff.mpr distinct
  have both := weak.and (List.pairwise_map.mp apart)
  apply both.imp
  intro a b together
  exact lt_of_le_of_ne (of_decide_eq_true together.1) (Ne.symm together.2)

/-- A strictly descending list is determined by its members. -/
theorem Descending.eq {first second : List α} (ordered : Descending key first) (ordered' : Descending key second)
    (same : ∀ r, r ∈ first ↔ r ∈ second) : first = second := by
  have irreflexive : Std.Irrefl fun a b : α => key b < key a := ⟨fun a => lt_irrefl (key a)⟩
  exact List.Pairwise.eq_of_mem_iff ordered ordered' same

theorem below_nodup {p : Option κ} (distinct : (rows.map key).Nodup) : ((below key p rows).map key).Nodup :=
  (List.filter_sublist.map key).nodup distinct

/-- What was there before is still there, and what was added is above all of it. -/
structure Newer (key : α → κ) (rows more : List α) : Prop where
  kept : ∀ r ∈ rows, r ∈ more
  above : ∀ r ∈ more, r ∈ rows ∨ ∀ old ∈ rows, key old < key r

theorem Newer.refl (rows : List α) : Newer key rows rows := ⟨fun _ member => member, fun _ member => .inl member⟩

/-- The first page of a table holds its first rows. -/
theorem fetch_first (rows : List α) : fetch key none count rows = (descending key rows).take count := by
  have all : below key none rows = rows := by
    apply List.filter_eq_self.mpr
    intro r _
    apply decide_eq_true
    intro k absent
    cases absent
  unfold fetch
  rw [all]

/-- A page that starts below a row of the table holds the rows that follow it, whatever was added above. -/
theorem fetch_after {front rest : List α} {x : α} (distinct : (more.map key).Nodup) (newer : Newer key rows more)
    (ordered : (front ++ x :: rest).Pairwise fun a b => key b < key a) (same : ∀ r, r ∈ front ++ x :: rest ↔ r ∈ rows) :
    fetch key (some (key x)) count more = rest.take count := by
  have whole : descending key (below key (some (key x)) more) = rest := by
    have tail := (List.pairwise_append.mp ordered).2.1
    apply Descending.eq (descending_sorted (below_nodup distinct)) (List.Pairwise.of_cons tail)
    intro r
    rw [mem_descending, mem_below]
    constructor
    · intro lower
      obtain ⟨member, lower⟩ := lower
      have lower := lower (key x) rfl
      have x_mem : x ∈ rows := (same x).mp (List.mem_append_right _ List.mem_cons_self)
      have old : r ∈ rows := by
        apply (newer.above r member).resolve_right
        intro above
        exact absurd (above x x_mem) lower.asymm
      cases List.mem_append.mp ((same r).mpr old) with
      | inl before =>
        have higher := (List.pairwise_append.mp ordered).2.2 r before x List.mem_cons_self
        exact absurd higher lower.asymm
      | inr after =>
        cases List.mem_cons.mp after with
        | inl here =>
          rw [here] at lower
          exact absurd lower (lt_irrefl _)
        | inr later => exact later
    · intro later
      refine ⟨newer.kept r ((same r).mp (List.mem_append_right _ (List.mem_cons_of_mem _ later))), ?_⟩
      intro k at_
      cases at_
      exact List.rel_of_pairwise_cons tail later
  unfold fetch
  rw [whole]

end HudsonSandbox.Keyset
