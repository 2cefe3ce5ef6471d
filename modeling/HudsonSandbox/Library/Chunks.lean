import Mathlib.Data.List.Basic

/-!
# Staging a sequence by chunks

A staged list is a prefix of the whole sequence. A chunk is the sequence from an offset on, up to a
length; where it starts inside what is staged, it agrees with it, and what it adds is a prefix again.
-/

namespace HudsonSandbox.Chunks
variable {α : Type*} {staged whole : List α} {offset k : ℕ}

theorem take_drop_staged (staging : staged <+: whole) (offset n : ℕ) :
    (staged.drop offset).take n = (whole.drop offset).take (min n (staged.length - offset)) := by
  have staged_eq : staged = whole.take staged.length := List.prefix_iff_eq_take.mp staging
  have drop_eq : staged.drop offset = (whole.drop offset).take (staged.length - offset) := by
    conv_lhs => rw [staged_eq]
    exact List.drop_take
  rw [drop_eq, List.take_take]

/-- The staged bytes under a chunk are the chunk's own. -/
theorem overlap_eq (staging : staged <+: whole) :
    (staged.drop offset).take ((whole.drop offset).take k).length =
      ((whole.drop offset).take k).take
        (min (staged.length - offset) ((whole.drop offset).take k).length) := by
  rw [take_drop_staged staging, List.take_take, List.take_eq_take_iff]
  simp only [List.length_take, List.length_drop]
  omega

/-- The part of a chunk beyond what is staged continues it. -/
theorem append_prefix (staging : staged <+: whole) (contiguous : offset ≤ staged.length) :
    staged ++ ((whole.drop offset).take k).drop (staged.length - offset) <+: whole := by
  obtain ⟨rest, rfl⟩ := staging
  have skipped : ((staged ++ rest).drop offset).drop (staged.length - offset) = rest := by
    rw [List.drop_drop, Nat.add_sub_cancel' contiguous]
    exact List.drop_left
  rw [List.drop_take, skipped]
  exact (List.prefix_append_right_inj staged).mpr (List.take_prefix _ _)

theorem length_append_drop (contiguous : offset ≤ staged.length) (chunk : List α) :
    (staged ++ chunk.drop (staged.length - offset)).length = max staged.length (offset + chunk.length) := by
  simp only [List.length_append, List.length_drop]
  omega

/-- Two lists of one content agree where they overlap. -/
theorem overlap_of_content {content : ℕ → α} {chunk : List α}
    (held : ∀ i x, staged[i]? = some x → x = content i)
    (sent : ∀ i x, chunk[i]? = some x → x = content (offset + i)) :
    (staged.drop offset).take chunk.length = chunk.take (min (staged.length - offset) chunk.length) := by
  apply List.ext_getElem
  · simp only [List.length_take, List.length_drop]
    omega
  · intro i first second
    simp only [List.length_take, List.length_drop] at first second
    have left : staged[offset + i]? = some staged[offset + i] := List.getElem?_eq_getElem (by omega)
    have right : chunk[i]? = some chunk[i] := List.getElem?_eq_getElem (by omega)
    simp only [List.getElem_take, List.getElem_drop]
    exact (held _ _ left).trans (sent _ _ right).symm

/-- A chunk that agrees with what is staged stands at its offset once its rest is appended. -/
theorem stored_at {chunk : List α} (contiguous : offset ≤ staged.length)
    (overlap : (staged.drop offset).take chunk.length = chunk.take (min (staged.length - offset) chunk.length)) :
    ((staged ++ chunk.drop (staged.length - offset)).drop offset).take chunk.length = chunk := by
  rw [List.drop_append_of_le_length contiguous, List.take_append, overlap, List.length_drop]
  by_cases inside : chunk.length ≤ staged.length - offset
  · rw [Nat.min_eq_right inside, Nat.sub_eq_zero_of_le inside, List.take_zero, List.append_nil, List.take_length]
  · have rest : (chunk.drop (staged.length - offset)).length ≤ chunk.length - (staged.length - offset) :=
      Nat.le_of_eq List.length_drop
    rw [Nat.min_eq_left (by omega), List.take_of_length_le rest, List.take_append_drop]

/-- What stands in a staged list once a part of a chunk's rest is appended comes from either. -/
theorem appended_at {chunk rest : List α} {i : ℕ} {x : α} (contiguous : offset ≤ staged.length)
    (part : rest <+: chunk.drop (staged.length - offset)) (found : (staged ++ rest)[i]? = some x) :
    staged[i]? = some x ∨ (offset ≤ i ∧ chunk[i - offset]? = some x) := by
  by_cases inside : i < staged.length
  · rw [List.getElem?_append_left inside] at found
    exact .inl found
  · rw [List.getElem?_append_right (by omega)] at found
    obtain ⟨more, same⟩ := part
    have within : i - staged.length < rest.length := (List.getElem?_eq_some_iff.mp found).1
    have there : (chunk.drop (staged.length - offset))[i - staged.length]? = some x := by
      rw [← same, List.getElem?_append_left within]
      exact found
    rw [List.getElem?_drop] at there
    have position : staged.length - offset + (i - staged.length) = i - offset := by omega
    rw [position] at there
    exact .inr ⟨by omega, there⟩

end HudsonSandbox.Chunks
