import Mathlib.Data.List.Sort

/-!
# Ordered maps

A map as the list of its entries in strictly ascending order of their keys. Collecting entries takes
them one after another, the later one for a key in the place of the earlier; entries of distinct keys may
arrive in any order.
-/

namespace HudsonSandbox.Ordered
variable {κ ν : Type*} [LinearOrder κ]

/-- The entries of a map, in the order of their keys. -/
def Sorted (map : List (κ × ν)) : Prop := map.Pairwise fun a b => a.1 < b.1

instance (map : List (κ × ν)) : Decidable (Sorted map) := inferInstanceAs (Decidable (map.Pairwise _))

/-- Put an entry in its place. -/
def insert (entry : κ × ν) : List (κ × ν) → List (κ × ν)
  | [] => [entry]
  | head :: rest =>
    if entry.1 < head.1 then entry :: head :: rest
    else if entry.1 = head.1 then entry :: rest
    else head :: insert entry rest

def collect (entries : List (κ × ν)) : List (κ × ν) := entries.foldl (fun map entry => insert entry map) []

theorem eq_or_mem_of_mem_insert {entry other : κ × ν} {map : List (κ × ν)} (member : other ∈ insert entry map) :
    other = entry ∨ other ∈ map := by
  fun_induction insert entry map with
  | case1 => exact .inl (List.mem_singleton.mp member)
  | case2 head rest below => exact List.mem_cons.mp member
  | case3 head rest _ same =>
    rcases List.mem_cons.mp member with same | later
    · exact .inl same
    · exact .inr (List.mem_cons_of_mem head later)
  | case4 head rest _ _ ih =>
    rcases List.mem_cons.mp member with same | later
    · exact .inr (same ▸ List.mem_cons_self)
    · exact (ih later).imp_right (List.mem_cons_of_mem head)

theorem insert_sorted {map : List (κ × ν)} (sorted : Sorted map) (entry : κ × ν) : Sorted (insert entry map) := by
  induction map with
  | nil => exact List.pairwise_singleton _ _
  | cons head rest ih =>
    obtain ⟨first, tail⟩ := List.pairwise_cons.mp sorted
    rw [insert]
    split
    next below =>
      apply List.pairwise_cons.mpr
      refine ⟨?_, sorted⟩
      intro other member
      rcases List.mem_cons.mp member with same | later
      · rw [same]
        exact below
      · exact lt_trans below (first other later)
    next notBelow =>
      split
      next same =>
        apply List.pairwise_cons.mpr
        refine ⟨?_, tail⟩
        intro other member
        rw [same]
        exact first other member
      next different =>
        apply List.pairwise_cons.mpr
        refine ⟨?_, ih tail⟩
        intro other member
        rcases eq_or_mem_of_mem_insert member with same | later
        · rw [same]
          exact lt_of_le_of_ne (not_lt.mp notBelow) fun same => different same.symm
        · exact first other later

theorem insert_perm {entry : κ × ν} {map : List (κ × ν)} (fresh : ∀ other ∈ map, other.1 ≠ entry.1) :
    (insert entry map).Perm (entry :: map) := by
  induction map with
  | nil => exact .refl _
  | cons head rest ih =>
    have tail := ih fun other member => fresh other (List.mem_cons_of_mem head member)
    rw [insert]
    split
    · exact .refl _
    · rw [if_neg fun same => fresh head List.mem_cons_self same.symm]
      exact (tail.cons head).trans (.swap entry head rest)

theorem foldl_sorted (entries : List (κ × ν)) {map : List (κ × ν)} (sorted : Sorted map) :
    Sorted (entries.foldl (fun map entry => insert entry map) map) := by
  induction entries generalizing map with
  | nil => exact sorted
  | cons entry rest ih =>
    rw [List.foldl_cons]
    exact ih (insert_sorted sorted entry)

theorem foldl_perm {entries map : List (κ × ν)} (distinct : (entries.map Prod.fst).Nodup)
    (fresh : ∀ entry ∈ entries, ∀ other ∈ map, other.1 ≠ entry.1) :
    (entries.foldl (fun map entry => insert entry map) map).Perm (entries ++ map) := by
  induction entries generalizing map with
  | nil => exact .refl _
  | cons entry rest ih =>
    obtain ⟨first, distinct⟩ := List.nodup_cons.mp distinct
    have inserted := insert_perm (fresh entry List.mem_cons_self)
    have later : ∀ next ∈ rest, ∀ other ∈ insert entry map, other.1 ≠ next.1 := by
      intro next member other within
      rcases eq_or_mem_of_mem_insert within with same | within
      · rw [same]
        intro same
        exact first (same ▸ List.mem_map_of_mem member)
      · exact fresh next (List.mem_cons_of_mem entry member) other within
    rw [List.foldl_cons]
    have perm : (rest ++ insert entry map).Perm (rest ++ entry :: map) := inserted.append_left rest
    exact ((ih distinct later).trans perm).trans List.perm_middle

theorem collect_sorted (entries : List (κ × ν)) : Sorted (collect entries) := foldl_sorted entries List.Pairwise.nil

theorem Sorted.nodup {map : List (κ × ν)} (sorted : Sorted map) : (map.map Prod.fst).Nodup := by
  apply List.pairwise_map.mpr
  apply sorted.imp
  intro a b below
  exact ne_of_lt below

theorem collect_perm {entries : List (κ × ν)} (distinct : (entries.map Prod.fst).Nodup) :
    (collect entries).Perm entries := by
  have collected := @foldl_perm κ ν _ entries [] distinct fun _ _ other member => by cases member
  rw [List.append_nil] at collected
  exact collected

/-- Collecting the entries of a map in any order gives the map. -/
theorem Sorted.collect {entries map : List (κ × ν)} (sorted : Sorted map) (perm : entries.Perm map) :
    collect entries = map := by
  have distinct : (entries.map Prod.fst).Nodup := (perm.map Prod.fst).nodup_iff.mpr sorted.nodup
  apply List.Perm.eq_of_pairwise _ (collect_sorted entries) sorted ((collect_perm distinct).trans perm)
  intro a b _ _ below above
  exact absurd below (lt_asymm above)

end HudsonSandbox.Ordered
