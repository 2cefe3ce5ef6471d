import Mathlib.Order.Fin.Basic

/-!
# Resource identities

Every public identity is a UUID with a resource prefix in front of it. The prefix keeps a
sandbox identity from standing where an operation identity belongs, and the byte order of the
UUID is the order of the type.
-/

namespace HudsonSandbox

/-- The sixteen bytes of a UUID, most significant first. -/
abbrev Uuid := BitVec 128

namespace Uuid

/-- The high nibble of the seventh byte. -/
def getVersionNum (id : Uuid) : Nat := (id.extractLsb' 76 4).toNat

inductive Variant where
  | ncs | rfc4122 | microsoft | future
  deriving DecidableEq, Repr

def getVariant (id : Uuid) : Variant :=
  let octet := id.extractLsb' 56 8
  if octet &&& 0x80#8 = 0x00#8 then .ncs
  else if octet &&& 0xc0#8 = 0x80#8 then .rfc4122
  else if octet &&& 0xe0#8 = 0xc0#8 then .microsoft
  else .future

/-- Lowercase hexadecimal, most significant digit first. -/
def hexDigits (id : Uuid) : List Char :=
  (List.range 32).map fun i => Nat.digitChar ((id.extractLsb' (124 - 4 * i) 4).toNat)

def hyphenated (id : Uuid) : List Char :=
  let digits := id.hexDigits
  digits.take 8 ++ '-' :: (digits.drop 8).take 4 ++ '-' :: (digits.drop 12).take 4 ++
    '-' :: (digits.drop 16).take 4 ++ '-' :: digits.drop 20

/-- What each trust boundary asks of an identity it did not mint itself. -/
def Valid (id : Uuid) : Prop := id.getVersionNum = 7 ∧ id.getVariant = .rfc4122

instance (id : Uuid) : Decidable id.Valid := inferInstanceAs (Decidable (_ ∧ _))

end Uuid

inductive Resource where
  | host | project | sandbox | allocation | operation
  deriving DecidableEq, Repr

def Resource.PREFIX : Resource → List Char
  | .host => ['h', 's', 't']
  | .project => ['p', 'r', 'j']
  | .sandbox => ['s', 'b', 'x']
  | .allocation => ['a', 'l', 'c']
  | .operation => ['o', 'p']

/-- One definition for the family that `define_id!` generates. -/
structure TypedId (resource : Resource) where
  uuid : Uuid
  deriving DecidableEq, Repr

abbrev HostId := TypedId .host
abbrev ProjectId := TypedId .project
abbrev SandboxId := TypedId .sandbox
abbrev AllocationId := TypedId .allocation
abbrev OperationId := TypedId .operation

namespace TypedId
variable {resource : Resource}

/-- The public rendering: prefix, separator, canonical lowercase UUID. -/
def display (id : TypedId resource) : List Char := resource.PREFIX ++ '_' :: id.uuid.hyphenated

theorem uuid_injective : Function.Injective (@uuid resource) := by
  rintro ⟨a⟩ ⟨b⟩ same
  exact congrArg TypedId.mk same

def rank (id : TypedId resource) : Nat := id.uuid.toNat

theorem rank_injective : Function.Injective (@rank resource) :=
  fun _ _ same => uuid_injective (BitVec.eq_of_toNat_eq same)

instance : LinearOrder (TypedId resource) := LinearOrder.lift' rank rank_injective

theorem lt_iff {a b : TypedId resource} : a < b ↔ a.uuid.toNat < b.uuid.toNat := Iff.rfl

theorem le_iff {a b : TypedId resource} : a ≤ b ↔ a.uuid.toNat ≤ b.uuid.toNat := Iff.rfl

end TypedId
end HudsonSandbox
