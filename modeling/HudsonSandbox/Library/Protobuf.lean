import Mathlib.Algebra.BigOperators.Group.List.Lemmas
import Mathlib.Algebra.Order.BigOperators.Group.List
import Mathlib.Algebra.Order.Ring.Int
import Mathlib.Algebra.Order.Ring.Nat
import Mathlib.Data.List.Flatten

/-!
# The proto3 encoding

A message as the bytes of its fields. A field of implicit presence is left out at its default, one of
explicit presence only when it is absent; a length-delimited value stands behind its length. The
lemmas bound the size of each kind of field by the size of its content.
-/

namespace HudsonSandbox.Protobuf

/-- Seven bits a byte, the lowest first, at most `k` of them. -/
def varintBytes : ℕ → ℕ → List UInt8
  | 0, _ => []
  | k + 1, n => if n < 128 then [UInt8.ofNat n] else UInt8.ofNat (n % 128 + 128) :: varintBytes k (n / 128)

/-- A machine word of 64 bits. -/
def varint (n : ℕ) : List UInt8 := varintBytes 10 n

def delimited (content : List UInt8) : List UInt8 := varint content.length ++ content

def utf8 (text : String) : List UInt8 := text.toByteArray.data.toList

section Fields
variable (field : ℕ)

def uint (n : ℕ) : List UInt8 := if n = 0 then [] else varint (field * 8) ++ varint n

/-- Two's complement in 64 bits, so that every negative number takes ten bytes. -/
def int (n : ℤ) : List UInt8 := uint field (n % 2 ^ 64).toNat

def boolean (value : Bool) : List UInt8 := uint field value.toNat

/-- A length-delimited field that is there, whatever its content. -/
def present (content : List UInt8) : List UInt8 := varint (field * 8 + 2) ++ delimited content

def bytes (content : List UInt8) : List UInt8 := if content = [] then [] else present field content

def string (text : String) : List UInt8 := bytes field (utf8 text)

def message {α : Type*} (encode : α → List UInt8) (value : Option α) : List UInt8 :=
  (value.map fun v => present field (encode v)).getD []

def optionalInt (value : Option ℤ) : List UInt8 :=
  (value.map fun n => varint (field * 8) ++ varint (n % 2 ^ 64).toNat).getD []

def optionalString (value : Option String) : List UInt8 := message field utf8 value

def repeatedString (values : List String) : List UInt8 := values.flatMap fun text => present field (utf8 text)

/-- Each entry is a message of a key and a value. -/
def stringMap (entries : List (String × String)) : List UInt8 :=
  entries.flatMap fun entry => present field (string 1 entry.1 ++ string 2 entry.2)

end Fields

/-! ### Sizes -/

theorem varintBytes_length_le {k j n : ℕ} (small : n < 128 ^ (j + 1)) : (varintBytes k n).length ≤ j + 1 := by
  induction k generalizing j n with
  | zero => exact Nat.zero_le _
  | succ k ih =>
    rw [varintBytes]
    by_cases last : n < 128
    · rw [if_pos last, List.length_singleton]
      omega
    · rw [if_neg last, List.length_cons]
      cases j with
      | zero =>
        rw [zero_add, pow_one] at small
        exact absurd small last
      | succ j =>
        rw [pow_succ] at small
        have rest : n / 128 < 128 ^ (j + 1) := by omega
        have shorter := ih rest
        omega

theorem varintBytes_length (k n : ℕ) : (varintBytes k n).length ≤ k := by
  induction k generalizing n with
  | zero => exact Nat.le_refl 0
  | succ k ih =>
    rw [varintBytes]
    split
    · rw [List.length_singleton]
      omega
    · have shorter := ih (n / 128)
      rw [List.length_cons]
      omega

theorem varint_length (n : ℕ) : (varint n).length ≤ 10 := varintBytes_length 10 n

theorem varint_length_le {n j : ℕ} (small : n < 128 ^ (j + 1)) : (varint n).length ≤ j + 1 :=
  varintBytes_length_le small

theorem varint_length_pos (n : ℕ) : 0 < (varint n).length := by
  unfold varint varintBytes
  split
  · exact Nat.zero_lt_one
  · rw [List.length_cons]
    omega

theorem utf8_length (text : String) : (utf8 text).length = text.utf8ByteSize := by
  unfold utf8
  rw [Array.length_toList]
  exact String.size_toByteArray

section Sizes
variable {field : ℕ}

/-- The tag of a field takes at most two bytes. -/
theorem tag_length (wire : ℕ) (early : field < 2 ^ 11) (kind : wire < 8) : (varint (field * 8 + wire)).length ≤ 2 := by
  have word : (varint (field * 8 + wire)).length ≤ 1 + 1 := by
    apply varint_length_le
    omega
  exact word

theorem uint_length (early : field < 2 ^ 11) (n : ℕ) : (uint field n).length ≤ 12 := by
  unfold uint
  split
  · exact Nat.zero_le _
  · have tag : (varint (field * 8)).length ≤ 2 := tag_length 0 early (by omega)
    have word := varint_length n
    rw [List.length_append]
    omega

theorem int_length (early : field < 2 ^ 11) (n : ℤ) : (int field n).length ≤ 12 := uint_length early _

theorem boolean_length (early : field < 2 ^ 11) (value : Bool) : (boolean field value).length ≤ 12 := uint_length early _

theorem optionalInt_length (early : field < 2 ^ 11) (value : Option ℤ) : (optionalInt field value).length ≤ 12 := by
  cases value with
  | none => exact Nat.zero_le _
  | some n =>
    have tag : (varint (field * 8)).length ≤ 2 := tag_length 0 early (by omega)
    have word := varint_length (n % 2 ^ 64).toNat
    show (varint (field * 8) ++ varint (n % 2 ^ 64).toNat).length ≤ 12
    rw [List.length_append]
    omega

/-- Contents of less than two mebibytes have three bytes of length. -/
theorem present_length (early : field < 2 ^ 11) {content : List UInt8} (small : content.length < 2 ^ 21) :
    (present field content).length ≤ content.length + 5 := by
  have tag : (varint (field * 8 + 2)).length ≤ 2 := tag_length 2 early (by omega)
  have length : (varint content.length).length ≤ 2 + 1 := varint_length_le small
  unfold present delimited
  rw [List.length_append, List.length_append]
  omega

theorem present_length_pos (content : List UInt8) : 0 < (present field content).length := by
  have tag := varint_length_pos (field * 8 + 2)
  unfold present
  rw [List.length_append]
  omega

theorem bytes_length (early : field < 2 ^ 11) {content : List UInt8} (small : content.length < 2 ^ 21) :
    (bytes field content).length ≤ content.length + 5 := by
  unfold bytes
  split
  · exact Nat.zero_le _
  · exact present_length early small

theorem string_length (early : field < 2 ^ 11) {text : String} (small : text.utf8ByteSize < 2 ^ 21) :
    (string field text).length ≤ text.utf8ByteSize + 5 := by
  rw [← utf8_length] at small ⊢
  exact bytes_length early small

theorem string_length_pos {text : String} (some_ : text ≠ "") : 0 < (string field text).length := by
  have content : utf8 text ≠ [] := by
    intro empty
    have size := utf8_length text
    rw [empty] at size
    exact some_ (String.utf8ByteSize_eq_zero_iff.mp size.symm)
  unfold string bytes
  rw [if_neg content]
  exact present_length_pos _

theorem message_length {α : Type*} (early : field < 2 ^ 11) {encode : α → List UInt8} {bound : ℕ}
    (small : bound < 2 ^ 21) {value : Option α} (bounded : ∀ v ∈ value, (encode v).length ≤ bound) :
    (message field encode value).length ≤ bound + 5 := by
  cases value with
  | none => exact Nat.zero_le _
  | some v =>
    have content := bounded v rfl
    have size : (present field (encode v)).length ≤ (encode v).length + 5 := present_length early (by omega)
    show (present field (encode v)).length ≤ bound + 5
    omega

theorem optionalString_length (early : field < 2 ^ 11) {bound : ℕ} (small : bound < 2 ^ 21) {value : Option String}
    (bounded : ∀ text ∈ value, text.utf8ByteSize ≤ bound) : (optionalString field value).length ≤ bound + 5 := by
  apply message_length early small
  intro text found
  rw [utf8_length]
  exact bounded text found

/-- Entries that each add at most `extra` bytes to their own size. -/
theorem flatMap_length_le {α : Type*} {f : α → List UInt8} {size : α → ℕ} {extra : ℕ} {values : List α}
    (bounded : ∀ v ∈ values, (f v).length ≤ size v + extra) :
    (values.flatMap f).length ≤ (values.map size).sum + values.length * extra := by
  induction values with
  | nil => exact Nat.zero_le _
  | cons v rest ih =>
    have head := bounded v List.mem_cons_self
    have tail := ih fun w member => bounded w (List.mem_cons_of_mem v member)
    rw [List.flatMap_cons, List.length_append, List.map_cons, List.sum_cons, List.length_cons, Nat.succ_mul]
    omega

theorem repeatedString_length (early : field < 2 ^ 11) {values : List String} {bound : ℕ} (small : bound < 2 ^ 21)
    (total : (values.map String.utf8ByteSize).sum ≤ bound) :
    (repeatedString field values).length ≤ bound + values.length * 5 := by
  have each : ∀ text ∈ values, (present field (utf8 text)).length ≤ text.utf8ByteSize + 5 := by
    intro text member
    have within : text.utf8ByteSize ≤ (values.map String.utf8ByteSize).sum :=
      List.single_le_sum (fun _ _ => Nat.zero_le _) _ (List.mem_map_of_mem member)
    rw [← utf8_length] at within ⊢
    exact present_length early (by omega)
  have sum := flatMap_length_le each
  unfold repeatedString
  omega

theorem stringMap_length (early : field < 2 ^ 11) {entries : List (String × String)} {bound : ℕ} (small : bound < 2 ^ 20)
    (total : (entries.map fun entry => entry.1.utf8ByteSize + entry.2.utf8ByteSize).sum ≤ bound) :
    (stringMap field entries).length ≤ bound + entries.length * 15 := by
  have each : ∀ entry ∈ entries, (present field (string 1 entry.1 ++ string 2 entry.2)).length ≤
      entry.1.utf8ByteSize + entry.2.utf8ByteSize + 15 := by
    intro entry member
    have among : entry.1.utf8ByteSize + entry.2.utf8ByteSize ∈
        entries.map fun entry => entry.1.utf8ByteSize + entry.2.utf8ByteSize :=
      List.mem_map.mpr ⟨entry, member, rfl⟩
    have within : entry.1.utf8ByteSize + entry.2.utf8ByteSize ≤ bound :=
      le_trans (List.single_le_sum (fun _ _ => Nat.zero_le _) _ among) total
    have key : (string 1 entry.1).length ≤ entry.1.utf8ByteSize + 5 := string_length (by omega) (by omega)
    have value : (string 2 entry.2).length ≤ entry.2.utf8ByteSize + 5 := string_length (by omega) (by omega)
    have body : (string 1 entry.1 ++ string 2 entry.2).length ≤ entry.1.utf8ByteSize + entry.2.utf8ByteSize + 10 := by
      rw [List.length_append]
      omega
    have size : (present field (string 1 entry.1 ++ string 2 entry.2)).length ≤
        (string 1 entry.1 ++ string 2 entry.2).length + 5 := present_length early (by omega)
    omega
  have sum := flatMap_length_le each
  unfold stringMap
  omega

end Sizes
end HudsonSandbox.Protobuf
