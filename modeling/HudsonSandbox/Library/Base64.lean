import Mathlib.Data.Fintype.Basic
import Mathlib.Tactic.IntervalCases

/-!
# Base64

Both common alphabets, with or without padding. Decoding is strict: it takes canonical padding
only and refuses a last group whose unused bits are not zero.
-/

namespace HudsonSandbox.Base64

/-- The two symbols in which the alphabets differ. -/
structure Alphabet where
  plus : Char
  slash : Char

def standard : Alphabet := ⟨'+', '/'⟩
def urlSafe : Alphabet := ⟨'-', '_'⟩

def symbol (alphabet : Alphabet) (n : ℕ) : Char :=
  if n < 26 then Char.ofNat (65 + n)
  else if n < 52 then Char.ofNat (97 + (n - 26))
  else if n < 62 then Char.ofNat (48 + (n - 52))
  else if n = 62 then alphabet.plus
  else alphabet.slash

def value (alphabet : Alphabet) (c : Char) : Option ℕ :=
  if 'A' ≤ c ∧ c ≤ 'Z' then some (c.toNat - 65)
  else if 'a' ≤ c ∧ c ≤ 'z' then some (c.toNat - 97 + 26)
  else if '0' ≤ c ∧ c ≤ '9' then some (c.toNat - 48 + 52)
  else if c = alphabet.plus then some 62
  else if c = alphabet.slash then some 63
  else none

/-- The alphabet's own symbols read back, and none of them is the padding or not printable. -/
structure Alphabet.Lawful (alphabet : Alphabet) : Prop where
  readBack : ∀ n : Fin 64, value alphabet (symbol alphabet n) = some n.val
  notPad : ∀ n : Fin 64, symbol alphabet n ≠ '='
  printable : ∀ n : Fin 64, ' ' < symbol alphabet n ∧ symbol alphabet n ≤ '~'

theorem standard_lawful : standard.Lawful := ⟨by decide, by decide, by decide⟩

theorem urlSafe_lawful : urlSafe.Lawful := ⟨by decide, by decide, by decide⟩

def pad (padded : Bool) (n : ℕ) : List Char := if padded then List.replicate n '=' else []

def encode (alphabet : Alphabet) (padded : Bool) : List UInt8 → List Char
  | [] => []
  | [a] =>
    [symbol alphabet (a.toNat / 4), symbol alphabet (a.toNat % 4 * 16)] ++ pad padded 2
  | [a, b] =>
    [symbol alphabet (a.toNat / 4), symbol alphabet (a.toNat % 4 * 16 + b.toNat / 16),
      symbol alphabet (b.toNat % 16 * 4)] ++ pad padded 1
  | a :: b :: c :: rest =>
    symbol alphabet (a.toNat / 4) :: symbol alphabet (a.toNat % 4 * 16 + b.toNat / 16) ::
      symbol alphabet (b.toNat % 16 * 4 + c.toNat / 64) :: symbol alphabet (c.toNat % 64) ::
      encode alphabet padded rest

/-- A last group of two symbols stands for one byte. -/
def lastByte (alphabet : Alphabet) (w x : Char) : Option (List UInt8) := do
  let w ← value alphabet w
  let x ← value alphabet x
  guard (x % 16 = 0)
  pure [UInt8.ofNat (w * 4 + x / 16)]

/-- A last group of three symbols stands for two bytes. -/
def lastBytes (alphabet : Alphabet) (w x y : Char) : Option (List UInt8) := do
  let w ← value alphabet w
  let x ← value alphabet x
  let y ← value alphabet y
  guard (y % 4 = 0)
  pure [UInt8.ofNat (w * 4 + x / 16), UInt8.ofNat (x % 16 * 16 + y / 4)]

def group (alphabet : Alphabet) (w x y z : Char) : Option (List UInt8) := do
  let w ← value alphabet w
  let x ← value alphabet x
  let y ← value alphabet y
  let z ← value alphabet z
  pure [UInt8.ofNat (w * 4 + x / 16), UInt8.ofNat (x % 16 * 16 + y / 4),
    UInt8.ofNat (y % 4 * 64 + z)]

def decode (alphabet : Alphabet) (padded : Bool) : List Char → Option (List UInt8)
  | [] => some []
  | [_] => none
  | [w, x] => if padded then none else lastByte alphabet w x
  | [w, x, y] => if padded then none else lastBytes alphabet w x y
  | w :: x :: y :: z :: rest =>
    if padded ∧ rest = [] ∧ z = '=' then
      if y = '=' then lastByte alphabet w x else lastBytes alphabet w x y
    else do
      let bytes ← group alphabet w x y z
      let others ← decode alphabet padded rest
      pure (bytes ++ others)

section RoundTrip
variable {alphabet : Alphabet} (lawful : alphabet.Lawful) {padded : Bool}
include lawful

theorem value_symbol {n : ℕ} (small : n < 64) : value alphabet (symbol alphabet n) = some n :=
  lawful.readBack ⟨n, small⟩

theorem symbol_ne_pad {n : ℕ} (small : n < 64) : symbol alphabet n ≠ '=' :=
  lawful.notPad ⟨n, small⟩

theorem lastByte_symbols (a : UInt8) :
    lastByte alphabet (symbol alphabet (a.toNat / 4)) (symbol alphabet (a.toNat % 4 * 16)) =
      some [a] := by
  have bound := a.toNat_lt
  have whole : a.toNat / 4 * 4 + a.toNat % 4 * 16 / 16 = a.toNat := by omega
  have unused : a.toNat % 4 * 16 % 16 = 0 := by omega
  simp only [lastByte, value_symbol lawful (show a.toNat / 4 < 64 by omega),
    value_symbol lawful (show a.toNat % 4 * 16 < 64 by omega), Option.bind_eq_bind,
    Option.bind_some, whole, unused, guard, if_true, UInt8.ofNat_toNat]
  rfl

theorem lastBytes_symbols (a b : UInt8) :
    lastBytes alphabet (symbol alphabet (a.toNat / 4))
      (symbol alphabet (a.toNat % 4 * 16 + b.toNat / 16)) (symbol alphabet (b.toNat % 16 * 4)) =
      some [a, b] := by
  have boundA := a.toNat_lt
  have boundB := b.toNat_lt
  have first : a.toNat / 4 * 4 + (a.toNat % 4 * 16 + b.toNat / 16) / 16 = a.toNat := by omega
  have second : (a.toNat % 4 * 16 + b.toNat / 16) % 16 * 16 + b.toNat % 16 * 4 / 4 = b.toNat := by
    omega
  have unused : b.toNat % 16 * 4 % 4 = 0 := by omega
  simp only [lastBytes, value_symbol lawful (show a.toNat / 4 < 64 by omega),
    value_symbol lawful (show a.toNat % 4 * 16 + b.toNat / 16 < 64 by omega),
    value_symbol lawful (show b.toNat % 16 * 4 < 64 by omega), Option.bind_eq_bind,
    Option.bind_some, first, second, unused, guard, if_true, UInt8.ofNat_toNat]
  rfl

theorem group_symbols (a b c : UInt8) :
    group alphabet (symbol alphabet (a.toNat / 4))
      (symbol alphabet (a.toNat % 4 * 16 + b.toNat / 16))
      (symbol alphabet (b.toNat % 16 * 4 + c.toNat / 64)) (symbol alphabet (c.toNat % 64)) =
      some [a, b, c] := by
  have boundA := a.toNat_lt
  have boundB := b.toNat_lt
  have boundC := c.toNat_lt
  have first : a.toNat / 4 * 4 + (a.toNat % 4 * 16 + b.toNat / 16) / 16 = a.toNat := by omega
  have second : (a.toNat % 4 * 16 + b.toNat / 16) % 16 * 16 +
      (b.toNat % 16 * 4 + c.toNat / 64) / 4 = b.toNat := by omega
  have third : (b.toNat % 16 * 4 + c.toNat / 64) % 4 * 64 + c.toNat % 64 = c.toNat := by omega
  simp only [group, value_symbol lawful (show a.toNat / 4 < 64 by omega),
    value_symbol lawful (show a.toNat % 4 * 16 + b.toNat / 16 < 64 by omega),
    value_symbol lawful (show b.toNat % 16 * 4 + c.toNat / 64 < 64 by omega),
    value_symbol lawful (show c.toNat % 64 < 64 by omega), Option.bind_eq_bind,
    Option.bind_some, first, second, third, UInt8.ofNat_toNat]
  rfl

/-- Whatever bytes were encoded are decoded again. -/
theorem decode_encode (bytes : List UInt8) :
    decode alphabet padded (encode alphabet padded bytes) = some bytes := by
  fun_induction encode alphabet padded bytes with
  | case1 => rfl
  | case2 a =>
    cases padded
    · simpa [pad, decode] using lastByte_symbols lawful a
    · simpa [pad, decode, List.replicate] using lastByte_symbols lawful a
  | case3 a b =>
    have third := symbol_ne_pad lawful (n := b.toNat % 16 * 4)
      (by have := b.toNat_lt; omega)
    cases padded
    · simpa [pad, decode] using lastBytes_symbols lawful a b
    · simpa [pad, decode, List.replicate, third] using lastBytes_symbols lawful a b
  | case4 a b c rest ih =>
    have fourth := symbol_ne_pad lawful (n := c.toNat % 64) (by omega)
    simp [decode, fourth, group_symbols lawful a b c, ih]

theorem encode_printable (bytes : List UInt8) :
    ∀ c ∈ encode alphabet padded bytes, ' ' < c ∧ c ≤ '~' := by
  have ok : ∀ {n : ℕ}, n < 64 → ' ' < symbol alphabet n ∧ symbol alphabet n ≤ '~' :=
    fun small => lawful.printable ⟨_, small⟩
  have padding : ∀ n, ∀ c ∈ pad padded n, ' ' < c ∧ c ≤ '~' := by
    intro n c member
    cases padded
    · cases member
    · obtain rfl := List.eq_of_mem_replicate member
      decide
  fun_induction encode alphabet padded bytes with
  | case1 => simp
  | case2 a =>
    have bound := a.toNat_lt
    simp only [List.cons_append, List.nil_append, List.forall_mem_cons]
    exact ⟨ok (by omega), ok (by omega), padding 2⟩
  | case3 a b =>
    have boundA := a.toNat_lt
    have boundB := b.toNat_lt
    simp only [List.cons_append, List.nil_append, List.forall_mem_cons]
    exact ⟨ok (by omega), ok (by omega), ok (by omega), padding 1⟩
  | case4 a b c rest ih =>
    have boundA := a.toNat_lt
    have boundB := b.toNat_lt
    have boundC := c.toNat_lt
    simp only [List.forall_mem_cons]
    exact ⟨ok (by omega), ok (by omega), ok (by omega), ok (by omega), ih⟩

end RoundTrip

theorem encode_length (alphabet : Alphabet) (bytes : List UInt8) :
    (encode alphabet false bytes).length = (4 * bytes.length + 2) / 3 := by
  fun_induction encode alphabet false bytes with
  | case1 => rfl
  | case2 => simp [pad]
  | case3 => simp [pad]
  | case4 a b c rest ih => simp only [List.length_cons, ih]; omega

end HudsonSandbox.Base64
