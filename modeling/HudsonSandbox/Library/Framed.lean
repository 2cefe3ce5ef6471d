import Mathlib.Data.List.Basic
import Mathlib.Data.List.Induction
import Mathlib.Algebra.Order.Ring.Nat

/-!
# Length-prefixed parts

A part behind its length in big-endian bytes shows where it ends, so the parts of a message cannot be
taken for each other.
-/

namespace HudsonSandbox.Framed

/-- The last `k` bytes of a number, the highest first. -/
def bigEndian : ℕ → ℕ → List UInt8
  | 0, _ => []
  | k + 1, n => bigEndian k (n / 256) ++ [UInt8.ofNat n]

def frame (k : ℕ) (part : List UInt8) : List UInt8 := bigEndian k part.length ++ part

@[simp] theorem bigEndian_length (k n : ℕ) : (bigEndian k n).length = k := by
  induction k generalizing n with
  | zero => rfl
  | succ k ih => simp [bigEndian, ih]

theorem bigEndian_inj {k m n : ℕ} (small : m < 256 ^ k) (small' : n < 256 ^ k)
    (same : bigEndian k m = bigEndian k n) : m = n := by
  induction k generalizing m n with
  | zero =>
    simp only [pow_zero] at small small'
    omega
  | succ k ih =>
    rw [pow_succ] at small small'
    obtain ⟨high, low⟩ := List.append_inj same (by simp)
    have high : m / 256 = n / 256 := ih (by omega) (by omega) high
    have low : m % 256 = n % 256 := by
      have bytes := congrArg UInt8.toNat (List.cons.inj low).1
      simpa using bytes
    omega

/-- The number that bytes stand for, the highest first. -/
def value (bytes : List UInt8) : ℕ := bytes.foldl (fun n byte => n * 256 + byte.toNat) 0

theorem value_append_singleton (bytes : List UInt8) (byte : UInt8) :
    value (bytes ++ [byte]) = value bytes * 256 + byte.toNat := by
  unfold value
  rw [List.foldl_append]
  rfl

theorem value_bigEndian {k n : ℕ} (small : n < 256 ^ k) : value (bigEndian k n) = n := by
  induction k generalizing n with
  | zero =>
    rw [pow_zero] at small
    have none_ : n = 0 := by omega
    rw [none_]
    rfl
  | succ k ih =>
    rw [pow_succ] at small
    have low : (UInt8.ofNat n).toNat = n % 256 := by simp
    rw [bigEndian, value_append_singleton, ih (by omega), low]
    omega

theorem value_lt (bytes : List UInt8) : value bytes < 256 ^ bytes.length := by
  induction bytes using List.reverseRecOn with
  | nil => exact Nat.zero_lt_one
  | append_singleton bytes byte ih =>
    have small := byte.toNat_lt
    rw [value_append_singleton, List.length_append, List.length_singleton, pow_succ]
    omega

/-- Bytes are the digits of the number they stand for. -/
theorem bigEndian_value (bytes : List UInt8) : bigEndian bytes.length (value bytes) = bytes := by
  induction bytes using List.reverseRecOn with
  | nil => rfl
  | append_singleton bytes byte ih =>
    have small : byte.toNat < 256 := byte.toNat_lt
    have high : (value bytes * 256 + byte.toNat) / 256 = value bytes := by omega
    have low : UInt8.ofNat (value bytes * 256 + byte.toNat) = byte := by
      apply UInt8.toNat_inj.mp
      rw [UInt8.toNat_ofNat']
      omega
    rw [List.length_append, List.length_singleton, bigEndian, value_append_singleton, high, low, ih]

theorem frame_append {k : ℕ} {a b r s : List UInt8} (small : a.length < 256 ^ k) (small' : b.length < 256 ^ k)
    (equal : frame k a ++ r = frame k b ++ s) : a = b ∧ r = s := by
  simp only [frame, List.append_assoc] at equal
  obtain ⟨prefixes, rest⟩ := List.append_inj equal (by simp)
  exact List.append_inj rest (bigEndian_inj small small' prefixes)

end HudsonSandbox.Framed
