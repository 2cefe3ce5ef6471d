import Mathlib.Data.List.Basic
import Mathlib.Algebra.Order.Ring.Nat

/-!
# Text

Control characters, the size of ASCII text, and the width of decimal numbers.
-/

namespace HudsonSandbox.Text

/-- The Unicode category of control characters. -/
def isControl (c : Char) : Bool := c.toNat < 0x20 || (0x7f ≤ c.toNat && c.toNat ≤ 0x9f)

/-- Printable ASCII, the space included. -/
def Printable (text : List Char) : Prop := ∀ c ∈ text, ' ' ≤ c ∧ c ≤ '~'

theorem Printable.append {a b : List Char} (first : Printable a) (second : Printable b) :
    Printable (a ++ b) := by
  intro c member
  rcases List.mem_append.mp member with left | right
  · exact first c left
  · exact second c right

theorem Printable.cons {c : Char} {text : List Char} (head : ' ' ≤ c ∧ c ≤ '~')
    (tail : Printable text) : Printable (c :: text) :=
  List.forall_mem_cons.mpr ⟨head, tail⟩

theorem isControl_printable {text : List Char} (printable : Printable text) :
    text.any isControl = false := by
  rw [List.any_eq_false]
  intro c member
  obtain ⟨low, high⟩ := printable c member
  have above : 0x20 ≤ c.toNat := low
  have below : c.toNat ≤ 0x7e := high
  simp only [isControl, Bool.or_eq_true, Bool.and_eq_true, decide_eq_true_eq]
  omega

theorem utf8Size_printable {c : Char} (high : c ≤ '~') : c.utf8Size = 1 := by
  have small : c.val ≤ 0x7f := UInt32.le_trans (show c.val ≤ 0x7e from high) (by decide)
  simp [Char.utf8Size, small]

theorem utf8ByteSize_printable {text : List Char} (printable : Printable text) :
    (String.ofList text).utf8ByteSize = text.length := by
  induction text with
  | nil => rfl
  | cons c rest ih =>
    obtain ⟨head, tail⟩ := List.forall_mem_cons.mp printable
    have split : String.ofList (c :: rest) = String.singleton c ++ String.ofList rest := by
      rw [String.singleton_eq_ofList, ← String.ofList_append]
      rfl
    rw [split, String.utf8ByteSize_append, String.utf8ByteSize_singleton,
      utf8Size_printable head.2, ih tail, List.length_cons]
    omega

/-- A machine word in decimal. -/
def decimal (n : ℕ) : List Char := Nat.toDigits 10 n

theorem decimal_printable (n : ℕ) : Printable (decimal n) := by
  intro c member
  have digit := Nat.isDigit_of_mem_toDigits (b := 10) (by omega) (by omega) member
  simp only [Char.isDigit, Bool.and_eq_true, decide_eq_true_eq] at digit
  exact ⟨UInt32.le_trans (by decide : ' '.val ≤ 48) digit.1,
    UInt32.le_trans digit.2 (by decide : 57 ≤ '~'.val)⟩

theorem decimal_length {n k : ℕ} (positive : 0 < k) (bound : n < 10 ^ k) :
    (decimal n).length ≤ k :=
  (Nat.length_toDigits_le_iff (by omega) positive).mpr bound

/-- Bytes in lowercase hexadecimal. -/
def hex (bytes : List UInt8) : List Char :=
  bytes.flatMap fun byte => [Nat.digitChar (byte.toNat / 16), Nat.digitChar (byte.toNat % 16)]

theorem hex_length (bytes : List UInt8) : (hex bytes).length = 2 * bytes.length := by
  induction bytes with
  | nil => rfl
  | cons byte rest ih =>
    unfold hex at ih ⊢
    rw [List.flatMap_cons, List.length_append, ih, List.length_cons]
    show 2 + 2 * rest.length = 2 * (rest.length + 1)
    omega

theorem mem_hex {bytes : List UInt8} {c : Char} (member : c ∈ hex bytes) : ∃ d : Fin 16, c = Nat.digitChar d := by
  obtain ⟨byte, _, within⟩ := List.mem_flatMap.mp member
  have small := byte.toNat_lt
  rcases List.mem_cons.mp within with high | low
  · exact ⟨⟨byte.toNat / 16, by omega⟩, high⟩
  · exact ⟨⟨byte.toNat % 16, by omega⟩, List.mem_singleton.mp low⟩

theorem hex_plain : ∀ d : Fin 16, (' ' ≤ Nat.digitChar d ∧ Nat.digitChar d ≤ '~') ∧
    ((Nat.digitChar d).isDigit = true ∨ ('a' ≤ Nat.digitChar d ∧ Nat.digitChar d ≤ 'f')) := by
  decide

theorem hex_printable (bytes : List UInt8) : Printable (hex bytes) := by
  intro c member
  obtain ⟨d, rfl⟩ := mem_hex member
  exact (hex_plain d).1

/-- A hexadecimal digit in either case. -/
def hexValue (c : Char) : Option ℕ :=
  if c.isDigit then some (c.toNat - 48)
  else if 'a' ≤ c ∧ c ≤ 'f' then some (c.toNat - 87)
  else if 'A' ≤ c ∧ c ≤ 'F' then some (c.toNat - 55)
  else none

def unhex : List Char → Option (List UInt8)
  | [] => some []
  | [_] => none
  | a :: b :: rest => do
    let high ← hexValue a
    let low ← hexValue b
    let bytes ← unhex rest
    pure (UInt8.ofNat (16 * high + low) :: bytes)

theorem hexValue_digitChar : ∀ d : Fin 16, hexValue (Nat.digitChar d) = some d.val := by decide

theorem unhex_hex (bytes : List UInt8) : unhex (hex bytes) = some bytes := by
  induction bytes with
  | nil => rfl
  | cons byte rest ih =>
    have small := byte.toNat_lt
    have high := hexValue_digitChar ⟨byte.toNat / 16, by omega⟩
    have low := hexValue_digitChar ⟨byte.toNat % 16, by omega⟩
    have whole : UInt8.ofNat (16 * (byte.toNat / 16) + byte.toNat % 16) = byte := by
      rw [Nat.div_add_mod]
      exact UInt8.ofNat_toNat
    show unhex (Nat.digitChar (byte.toNat / 16) :: Nat.digitChar (byte.toNat % 16) :: hex rest) = _
    rw [unhex, high, low, ih]
    show some (UInt8.ofNat _ :: rest) = _
    rw [whole]

/-! ### Compact JSON

Rendering of records whose texts need no escapes. -/

def quoted (text : List Char) : List Char := '"' :: text ++ ['"']

def member (name : String) (value : List Char) : List Char := quoted name.toList ++ ':' :: value

def separated : List (List Char) → List Char
  | [] => []
  | [item] => item
  | item :: rest => item ++ ',' :: separated rest

def object (members : List (List Char)) : List Char := '\x7b' :: separated members ++ ['\x7d']

def array (items : List (List Char)) : List Char := '[' :: separated items ++ [']']

@[simp] theorem quoted_length (text : List Char) : (quoted text).length = text.length + 2 := by
  simp [quoted]

@[simp] theorem member_length (name : String) (value : List Char) :
    (member name value).length = name.length + value.length + 3 := by
  simp only [member, List.length_append, quoted_length, List.length_cons, String.length_toList]
  omega

theorem separated_length (items : List (List Char)) :
    (separated items).length ≤ (items.map fun item => item.length + 1).sum := by
  fun_induction separated items with
  | case1 => exact Nat.le_refl _
  | case2 item => simp
  | case3 item rest _ ih =>
    simp only [List.length_append, List.length_cons, List.map_cons, List.sum_cons]
    omega

theorem object_length (members : List (List Char)) :
    (object members).length ≤ (members.map fun item => item.length + 1).sum + 2 := by
  have inner := separated_length members
  simp only [object, List.cons_append, List.length_cons, List.length_append, List.length_nil]
  omega

theorem array_length (items : List (List Char)) :
    (array items).length ≤ (items.map fun item => item.length + 1).sum + 2 := by
  have inner := separated_length items
  simp only [array, List.cons_append, List.length_cons, List.length_append, List.length_nil]
  omega

end HudsonSandbox.Text
