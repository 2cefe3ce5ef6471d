import Mathlib.Algebra.BigOperators.Group.List.Lemmas
import Mathlib.Algebra.Order.Ring.Nat
import Mathlib.Data.List.Flatten
import Mathlib.Data.UInt

/-!
# UTF-8

Text as bytes. An ASCII byte stands for its own character wherever it occurs, so what is asked of the ASCII
characters of a text can be asked of its bytes, and splitting at one gives the same parts.
-/

namespace HudsonSandbox.Utf8

/-! What is asked of every part of a text is decided by going through the text, not through all characters. -/

instance decidableEachChar {p : Char → Prop} [DecidablePred p] (text : List Char) : Decidable (∀ c ∈ text, p c) :=
  List.decidableBAll p text

instance decidableEachByte {p : UInt8 → Prop} [DecidablePred p] (bytes : List UInt8) : Decidable (∀ b ∈ bytes, p b) :=
  List.decidableBAll p bytes

def encode (text : List Char) : List UInt8 := text.flatMap String.utf8EncodeChar

@[simp] theorem encode_nil : encode [] = [] := rfl

@[simp] theorem encode_cons (c : Char) (text : List Char) : encode (c :: text) = String.utf8EncodeChar c ++ encode text :=
  List.flatMap_cons

@[simp] theorem encode_append (a b : List Char) : encode (a ++ b) = encode a ++ encode b := List.flatMap_append

theorem encode_length (text : List Char) : (encode text).length = (text.map Char.utf8Size).sum := by
  induction text with
  | nil => rfl
  | cons c rest ih => rw [encode_cons, List.length_append, ih, List.map_cons, List.sum_cons, String.length_utf8EncodeChar]

/-- An ASCII character is one byte. -/
theorem encodeChar_ascii {c : Char} (ascii : c.toNat < 128) : String.utf8EncodeChar c = [UInt8.ofNat c.toNat] :=
  if_pos (show c.val.toNat ≤ 0x7f from Nat.le_of_lt_succ ascii)

/-- Every byte of any other character has its highest bit set. -/
theorem high_of_mem {c : Char} (wide : ¬c.toNat < 128) {b : UInt8} (member : b ∈ String.utf8EncodeChar c) :
    128 ≤ b.toNat := by
  have one : ¬c.val.toNat ≤ 0x7f := fun small => wide (Nat.lt_succ_of_le small)
  unfold String.utf8EncodeChar at member
  dsimp only at member
  rw [if_neg one] at member
  split at member
  · simp only [List.mem_cons, List.not_mem_nil, or_false] at member
    rcases member with rfl | rfl <;> rw [UInt8.toNat_ofNat'] <;> omega
  · split at member
    · simp only [List.mem_cons, List.not_mem_nil, or_false] at member
      rcases member with rfl | rfl | rfl <;> rw [UInt8.toNat_ofNat'] <;> omega
    · simp only [List.mem_cons, List.not_mem_nil, or_false] at member
      rcases member with rfl | rfl | rfl | rfl <;> rw [UInt8.toNat_ofNat'] <;> omega

theorem encodeChar_of_mem {c : Char} {b : UInt8} (member : b ∈ String.utf8EncodeChar c) (ascii : b.toNat < 128) :
    c.toNat = b.toNat := by
  by_cases small : c.toNat < 128
  · rw [encodeChar_ascii small, List.mem_singleton] at member
    rw [member, UInt8.toNat_ofNat']
    omega
  · have high := high_of_mem small member
    omega

/-- An ASCII byte occurs exactly where its character does. -/
theorem mem_encode {text : List Char} {c : Char} (ascii : c.toNat < 128) :
    UInt8.ofNat c.toNat ∈ encode text ↔ c ∈ text := by
  have byte : (UInt8.ofNat c.toNat).toNat = c.toNat := by
    rw [UInt8.toNat_ofNat']
    omega
  unfold encode
  rw [List.mem_flatMap]
  constructor
  · rintro ⟨d, within, member⟩
    have same := encodeChar_of_mem member (by omega)
    rw [byte] at same
    have equal : d = c := Char.toNat_inj.mp same
    exact equal ▸ within
  · intro within
    refine ⟨c, within, ?_⟩
    rw [encodeChar_ascii ascii]
    exact List.mem_singleton_self _

/-- A question about single characters that only ASCII ones can answer with yes may be asked of the bytes. -/
theorem forall_encode {P : ℕ → Prop} (ascii : ∀ n, P n → n < 128) {text : List Char} :
    (∀ b ∈ encode text, ¬P b.toNat) ↔ ∀ c ∈ text, ¬P c.toNat := by
  constructor
  · intro plain c within bad
    have small := ascii _ bad
    have byte : (UInt8.ofNat c.toNat).toNat = c.toNat := by
      rw [UInt8.toNat_ofNat']
      omega
    apply plain _ ((mem_encode small).mpr within)
    rw [byte]
    exact bad
  · intro plain b within bad
    obtain ⟨c, member, found⟩ := List.mem_flatMap.mp within
    have same := encodeChar_of_mem found (ascii _ bad)
    apply plain c member
    rw [same]
    exact bad

theorem encode_ne_nil {text : List Char} : encode text = [] ↔ text = [] := by
  cases text with
  | nil => simp
  | cons c rest =>
    rw [encode_cons]
    simp [String.utf8EncodeChar_ne_nil]

/-- ASCII text is read from its bytes. -/
theorem encode_eq_ascii {text ascii : List Char} (plain : ∀ c ∈ ascii, c.toNat < 128) :
    encode text = encode ascii ↔ text = ascii := by
  refine ⟨?_, fun same => same ▸ rfl⟩
  intro same
  induction ascii generalizing text with
  | nil => exact encode_ne_nil.mp same
  | cons a ascii ih =>
    obtain ⟨first, rest⟩ := List.forall_mem_cons.mp plain
    cases text with
    | nil => exact absurd same.symm (by rw [encode_nil, encode_ne_nil]; simp)
    | cons c text =>
      rw [encode_cons, encode_cons, encodeChar_ascii first] at same
      have one : c.toNat < 128 := by
        by_cases small : c.toNat < 128
        · exact small
        · obtain ⟨b, more, split⟩ := List.exists_cons_of_ne_nil (String.utf8EncodeChar_ne_nil (c := c))
          have high : 128 ≤ b.toNat := high_of_mem small (by rw [split]; exact List.mem_cons_self)
          rw [split] at same
          have byte : b = UInt8.ofNat a.toNat := (List.cons.inj same).1
          rw [byte, UInt8.toNat_ofNat'] at high
          omega
      rw [encodeChar_ascii one] at same
      obtain ⟨head, tail⟩ := List.cons.inj same
      have equal : c = a := by
        have value := congrArg UInt8.toNat head
        rw [UInt8.toNat_ofNat', UInt8.toNat_ofNat'] at value
        apply Char.toNat_inj.mp
        omega
      rw [equal, ih rest tail]

theorem encode_intercalate {separator : Char} (ascii : separator.toNat < 128) (parts : List (List Char)) :
    encode ([separator].intercalate parts) = [UInt8.ofNat separator.toNat].intercalate (parts.map encode) := by
  induction parts with
  | nil => rfl
  | cons part rest ih =>
    cases rest with
    | nil => simp [List.intercalate]
    | cons next rest =>
      have joint : encode [separator] = [UInt8.ofNat separator.toNat] := by
        rw [encode_cons, encodeChar_ascii ascii, encode_nil, List.append_nil]
      rw [List.intercalate_cons_cons, encode_append, encode_append, ih, joint]
      exact List.intercalate_cons_cons.symm

/-- No part of a split text holds the separator. -/
theorem not_mem_of_mem_splitOn {α : Type*} [DecidableEq α] {separator : α} {xs part : List α}
    (member : part ∈ xs.splitOn separator) : separator ∉ part := by
  induction xs generalizing part with
  | nil =>
    rw [List.splitOn_nil, List.mem_singleton] at member
    rw [member]
    exact List.not_mem_nil
  | cons x xs ih =>
    rw [List.splitOn_cons_eq_if_modifyHead] at member
    split at member
    next =>
      rcases List.mem_cons.mp member with same | later
      · rw [same]
        exact List.not_mem_nil
      · exact ih later
    next different =>
      obtain ⟨first, rest, parts⟩ := List.exists_cons_of_ne_nil (List.splitOn_ne_nil separator xs)
      rw [parts] at ih
      rw [parts, List.modifyHead_cons] at member
      rcases List.mem_cons.mp member with same | later
      · rw [same]
        intro within
        rcases List.mem_cons.mp within with head | tail
        · exact different (beq_iff_eq.mpr head.symm)
        · exact ih List.mem_cons_self tail
      · exact ih (List.mem_cons_of_mem first later)

/-- Splitting the text and splitting the bytes give the same parts. -/
theorem splitOn_encode {separator : Char} (ascii : separator.toNat < 128) (text : List Char) :
    (encode text).splitOn (UInt8.ofNat separator.toNat) = (text.splitOn separator).map encode := by
  have joined : [separator].intercalate (text.splitOn separator) = text := List.intercalate_splitOn separator
  have free : ∀ part ∈ (text.splitOn separator).map encode, UInt8.ofNat separator.toNat ∉ part := by
    intro part member
    obtain ⟨chars, within, rfl⟩ := List.mem_map.mp member
    rw [mem_encode ascii]
    exact not_mem_of_mem_splitOn within
  have some_ : (text.splitOn separator).map encode ≠ [] := by
    intro none_
    exact List.splitOn_ne_nil separator text (List.map_eq_nil_iff.mp none_)
  have back := List.splitOn_intercalate (UInt8.ofNat separator.toNat) free some_
  rw [← encode_intercalate ascii, joined] at back
  exact back

/-! ### Reading text back -/

/-- The text that bytes encode, if they encode any. -/
def decode (bytes : List UInt8) : Option (List Char) := (bytes.toByteArray.utf8Decode?).map Array.toList

theorem decode_encode (text : List Char) : decode (encode text) = some text := by
  have whole : (encode text).toByteArray = text.utf8Encode := rfl
  unfold decode
  rw [whole, List.utf8Decode?_utf8Encode]
  rfl

theorem decode_some {bytes : List UInt8} {text : List Char} : decode bytes = some text ↔ bytes = encode text := by
  constructor
  · intro read
    obtain ⟨found, decoded, same⟩ := Option.map_eq_some_iff.mp read
    have valid : (bytes.toByteArray.utf8Decode?).isSome = true := by rw [decoded]; rfl
    have whole := @ByteArray.utf8Encode_get_utf8Decode? bytes.toByteArray valid
    have here : (bytes.toByteArray.utf8Decode?).get valid = found := by simp [decoded]
    rw [here, same] at whole
    have data := congrArg ByteArray.data whole
    have lists : (encode text).toByteArray.data = bytes.toByteArray.data := data
    rw [List.data_toByteArray, List.data_toByteArray] at lists
    exact (List.toArray_inj lists).symm
  · intro same
    rw [same]
    exact decode_encode text

end HudsonSandbox.Utf8
