import HudsonSandbox.Library.Keyset
import HudsonSandbox.Protocol.GuestWire
import Mathlib.Data.Prod.Lex

/-!
# Collection reads

Sandboxes and operations are read newest first, a page at a time. A page is fetched with one row more than it
may hold; the extra row is dropped and shows that there is a next page.
-/

namespace HudsonSandbox.Lists

/-- A time in nanoseconds since the epoch, and an identity. -/
structure Position where
  createdAt : ℤ
  id : Uuid
  deriving DecidableEq

/-- A listed row, as far as it is selected and ordered by; a sandbox is its own `sandbox`. The column keeps
microseconds, and every time in it is one that the service can represent. -/
structure Row where
  id : Uuid
  project : ProjectId
  sandbox : SandboxId
  created : ℤ
  minted : id.getVersionNum = 7
  dated : -377705116800000000 ≤ created ∧ created < 253402300800000000
  deriving DecidableEq

structure Page where
  items : List Row
  next : Option Position
  deriving DecidableEq

/-- Microseconds from the epoch to the start of the year 2000, from which the database counts. -/
def PG_EPOCH : ℤ := 946684800000000

/-- A time as a query parameter, cut to microseconds. -/
def bind (createdAt : ℤ) : ℤ := PG_EPOCH + (createdAt - PG_EPOCH * 1000).tdiv 1000

def Row.key (row : Row) : ℤ ×ₗ ℕ := toLex (row.created, row.id.toNat)
def Row.position (row : Row) : Position := ⟨row.created * 1000, row.id⟩
def Position.key (self : Position) : ℤ ×ₗ ℕ := toLex (bind self.createdAt, self.id.toNat)

/-- The rows after a position, one more than the limit. -/
def after (rows : List Row) (before : Option Position) (limit : ℕ) : List Row :=
  Keyset.fetch Row.key (before.map Position.key) (limit + 1) rows

def page (items : List Row) (limit : ℕ) : Page :=
  if limit < items.length then { items := items.dropLast, next := items.dropLast.getLast?.map Row.position }
  else { items, next := none }

def listSandboxes (rows : List Row) (project : ProjectId) (before : Option Position) (limit : ℕ) : Page :=
  page (after (rows.filter fun r => r.project = project) before limit) limit

def listOperations (rows : List Row) (project : ProjectId) (sandbox : Option SandboxId) (before : Option Position)
    (limit : ℕ) : Page :=
  page (after (rows.filter fun r => r.project = project ∧ ∀ s ∈ sandbox, r.sandbox = s) before limit) limit

/-! ### Pages -/

theorem bind_micros (created : ℤ) : bind (created * 1000) = created := by
  unfold bind
  rw [← Int.sub_mul, Int.mul_tdiv_cancel _ (by omega)]
  omega

/-- The position of a row loses nothing of its key. -/
@[simp] theorem position_key (row : Row) : row.position.key = row.key := by
  show toLex (bind (row.created * 1000), row.id.toNat) = _
  rw [bind_micros]
  rfl

theorem key_injective {a b : Row} (same : a.key = b.key) : a.created = b.created ∧ a.id = b.id := by
  have both : (a.created, a.id.toNat) = (b.created, b.id.toNat) := toLex_inj.mp same
  exact ⟨congrArg Prod.fst both, BitVec.eq_of_toNat_eq (congrArg Prod.snd both)⟩

theorem keys_nodup {rows : List Row} (distinct : (rows.map Row.id).Nodup) : (rows.map Row.key).Nodup := by
  have unlike := List.pairwise_map.mp distinct
  apply List.pairwise_map.mpr
  apply unlike.imp
  intro a b other same
  exact other (key_injective same).2

/-- The rows up to the limit, and the last of them where there are more. -/
theorem page_take (rows : List Row) (limit : ℕ) : page (rows.take (limit + 1)) limit =
    { items := rows.take limit
      next := if limit < rows.length then (rows.take limit).getLast?.map Row.position else none } := by
  unfold page
  by_cases more : limit < rows.length
  · have length : (rows.take (limit + 1)).length = limit + 1 := by
      rw [List.length_take]
      omega
    have shorter : (rows.take (limit + 1)).dropLast = rows.take limit := by
      rw [List.dropLast_eq_take, length, Nat.add_sub_cancel, List.take_take, Nat.min_eq_left (Nat.le_succ _)]
    rw [if_pos (by rw [length]; omega), if_pos more, shorter]
  · have whole : rows.take (limit + 1) = rows := List.take_of_length_le (by omega)
    have whole' : rows.take limit = rows := List.take_of_length_le (by omega)
    rw [whole, whole', if_neg more, if_neg more]

end HudsonSandbox.Lists
