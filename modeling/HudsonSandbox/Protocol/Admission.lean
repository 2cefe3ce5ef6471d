import HudsonSandbox.Protocol.History

/-!
# The order of admission

New operations of an allocation take identities above everything that was admitted or reserved
before, also where the clock went back: the successor of a UUIDv7 among the UUIDv7s.
-/

namespace HudsonSandbox.History
open Checked

/-! ### The free bits of a UUIDv7 -/

def LOW_MASK : ℕ := 2 ^ 62 - 1

/-- The 122 free bits of a UUIDv7, in the order of the identities. -/
def rankOf (value : ℕ) : ℕ := (value >>> 80) <<< 74 ||| (value >>> 64 &&& 0xfff) <<< 62 ||| (value &&& LOW_MASK)

def ofRank (rank : ℕ) : ℕ :=
  (rank >>> 74) <<< 80 ||| 7 <<< 76 ||| (rank >>> 62 &&& 0xfff) <<< 64 ||| 2 <<< 62 ||| (rank &&& LOW_MASK)

theorem low_mask (n : ℕ) : n &&& LOW_MASK = n % 2 ^ 62 := Nat.and_two_pow_sub_one_eq_mod n 62

theorem twelve_bits (n : ℕ) : n &&& 0xfff = n % 2 ^ 12 := Nat.and_two_pow_sub_one_eq_mod n 12

/-- Fields that do not overlap are added. -/
theorem or_field (width : ℕ) {high low : ℕ} (fits : low < 2 ^ width) (aligned : high % 2 ^ width = 0) :
    high ||| low = high + low := by
  have whole : high = (high / 2 ^ width) <<< width := by
    rw [Nat.shiftLeft_eq, Nat.div_mul_cancel (Nat.dvd_of_mod_eq_zero aligned)]
  rw [whole, Nat.shiftLeft_add_eq_or_of_lt fits]

theorem rankOf_eq (value : ℕ) :
    rankOf value = value / 2 ^ 80 * 2 ^ 74 + value / 2 ^ 64 % 2 ^ 12 * 2 ^ 62 + value % 2 ^ 62 := by
  unfold rankOf
  rw [low_mask, twelve_bits]
  simp only [Nat.shiftLeft_eq, Nat.shiftRight_eq_div_pow]
  have upper : value / 2 ^ 80 * 2 ^ 74 ||| value / 2 ^ 64 % 2 ^ 12 * 2 ^ 62 =
      value / 2 ^ 80 * 2 ^ 74 + value / 2 ^ 64 % 2 ^ 12 * 2 ^ 62 := or_field 74 (by omega) (by omega)
  rw [upper]
  exact or_field 62 (by omega) (by omega)

theorem ofRank_eq (rank : ℕ) :
    ofRank rank = rank / 2 ^ 74 * 2 ^ 80 + 7 * 2 ^ 76 + rank / 2 ^ 62 % 2 ^ 12 * 2 ^ 64 + 2 * 2 ^ 62 +
      rank % 2 ^ 62 := by
  unfold ofRank
  rw [low_mask, twelve_bits]
  simp only [Nat.shiftLeft_eq, Nat.shiftRight_eq_div_pow]
  have version : rank / 2 ^ 74 * 2 ^ 80 ||| 7 * 2 ^ 76 = rank / 2 ^ 74 * 2 ^ 80 + 7 * 2 ^ 76 :=
    or_field 80 (by omega) (by omega)
  have middle : rank / 2 ^ 74 * 2 ^ 80 + 7 * 2 ^ 76 ||| rank / 2 ^ 62 % 2 ^ 12 * 2 ^ 64 =
      rank / 2 ^ 74 * 2 ^ 80 + 7 * 2 ^ 76 + rank / 2 ^ 62 % 2 ^ 12 * 2 ^ 64 :=
    or_field 76 (by omega) (by omega)
  have variant : rank / 2 ^ 74 * 2 ^ 80 + 7 * 2 ^ 76 + rank / 2 ^ 62 % 2 ^ 12 * 2 ^ 64 ||| 2 * 2 ^ 62 =
      rank / 2 ^ 74 * 2 ^ 80 + 7 * 2 ^ 76 + rank / 2 ^ 62 % 2 ^ 12 * 2 ^ 64 + 2 * 2 ^ 62 :=
    or_field 64 (by omega) (by omega)
  rw [version, middle, variant]
  exact or_field 62 (by omega) (by omega)

/-- A rank of its three fields: the timestamp, the twelve and the sixty-two random bits. -/
theorem ofRank_fields {t r l : ℕ} (middle : r < 2 ^ 12) (low : l < 2 ^ 62) :
    ofRank (t * 2 ^ 74 + r * 2 ^ 62 + l) = t * 2 ^ 80 + 7 * 2 ^ 76 + r * 2 ^ 64 + 2 * 2 ^ 62 + l := by
  rw [ofRank_eq]
  have first : (t * 2 ^ 74 + r * 2 ^ 62 + l) / 2 ^ 74 = t := by omega
  have second : (t * 2 ^ 74 + r * 2 ^ 62 + l) / 2 ^ 62 = t * 2 ^ 12 + r := by omega
  have third : (t * 2 ^ 74 + r * 2 ^ 62 + l) % 2 ^ 62 = l := by omega
  rw [first, second, third]
  omega

theorem fields_of {value : ℕ} (version : value / 2 ^ 76 % 16 = 7) (variant : value / 2 ^ 62 % 4 = 2) :
    ∃ t r l, r < 2 ^ 12 ∧ l < 2 ^ 62 ∧ rankOf value = t * 2 ^ 74 + r * 2 ^ 62 + l ∧
      value = t * 2 ^ 80 + 7 * 2 ^ 76 + r * 2 ^ 64 + 2 * 2 ^ 62 + l := by
  refine ⟨value / 2 ^ 80, value / 2 ^ 64 % 2 ^ 12, value % 2 ^ 62, by omega, by omega, rankOf_eq value, ?_⟩
  have upper : value / 2 ^ 76 / 16 = value / 2 ^ 80 := Nat.div_div_eq_div_mul value (2 ^ 76) 16
  have middle : value / 2 ^ 64 / 2 ^ 12 = value / 2 ^ 76 := Nat.div_div_eq_div_mul value (2 ^ 64) (2 ^ 12)
  have low : value / 2 ^ 62 / 4 = value / 2 ^ 64 := Nat.div_div_eq_div_mul value (2 ^ 62) 4
  omega

theorem ofRank_next {value : ℕ} (version : value / 2 ^ 76 % 16 = 7) (variant : value / 2 ^ 62 % 4 = 2)
    (room : rankOf value + 1 < 2 ^ 122) :
    value < ofRank (rankOf value + 1) ∧ ofRank (rankOf value + 1) < 2 ^ 128 := by
  obtain ⟨t, r, l, middle, low, rank, whole⟩ := fields_of version variant
  rw [rank] at room ⊢
  -- the carry of the successor stops in the first field that is not full
  by_cases full : l + 1 < 2 ^ 62
  · have next := @ofRank_fields t r (l + 1) middle full
    rw [Nat.add_assoc, next]
    omega
  by_cases carry : r + 1 < 2 ^ 12
  · have carried : t * 2 ^ 74 + r * 2 ^ 62 + l + 1 = t * 2 ^ 74 + (r + 1) * 2 ^ 62 + 0 := by omega
    have next := @ofRank_fields t (r + 1) 0 carry (by decide)
    rw [carried, next]
    omega
  · have carried : t * 2 ^ 74 + r * 2 ^ 62 + l + 1 = (t + 1) * 2 ^ 74 + 0 * 2 ^ 62 + 0 := by omega
    have next := @ofRank_fields (t + 1) 0 0 (by decide) (by decide)
    rw [carried, next]
    omega

/-- Every rank has fields, and no two ranks have the same. -/
theorem rank_fields (rank : ℕ) : ∃ t r l, r < 2 ^ 12 ∧ l < 2 ^ 62 ∧ rank = t * 2 ^ 74 + r * 2 ^ 62 + l :=
  ⟨rank / 2 ^ 74, rank / 2 ^ 62 % 2 ^ 12, rank % 2 ^ 62, by omega, by omega, by
    have upper : rank / 2 ^ 62 / 2 ^ 12 = rank / 2 ^ 74 := Nat.div_div_eq_div_mul rank (2 ^ 62) (2 ^ 12)
    omega⟩

/-- The fields are ordered as the ranks are. -/
theorem fields_mono {t r l t' r' l' : ℕ} (lex : t < t' ∨ t = t' ∧ (r < r' ∨ r = r' ∧ l ≤ l'))
    (middle : r < 2 ^ 12) (low : l < 2 ^ 62) :
    t * 2 ^ 80 + 7 * 2 ^ 76 + r * 2 ^ 64 + 2 * 2 ^ 62 + l ≤
      t' * 2 ^ 80 + 7 * 2 ^ 76 + r' * 2 ^ 64 + 2 * 2 ^ 62 + l' := by
  omega

theorem ofRank_mono {a b : ℕ} (ordered : a ≤ b) : ofRank a ≤ ofRank b := by
  obtain ⟨t, r, l, middle, low, rfl⟩ := rank_fields a
  obtain ⟨t', r', l', middle', low', rfl⟩ := rank_fields b
  have lex : t < t' ∨ t = t' ∧ (r < r' ∨ r = r' ∧ l ≤ l') := by omega
  have first := @ofRank_fields t r l middle low
  have second := @ofRank_fields t' r' l' middle' low'
  exact first.le.trans ((fields_mono lex middle low).trans second.ge)

theorem ofRank_rankOf {value : ℕ} (version : value / 2 ^ 76 % 16 = 7) (variant : value / 2 ^ 62 % 4 = 2) :
    ofRank (rankOf value) = value := by
  obtain ⟨t, r, l, middle, low, rank, whole⟩ := fields_of version variant
  have same := @ofRank_fields t r l middle low
  rw [rank, same, ← whole]

theorem rankOf_lt {a b : ℕ} (version : a / 2 ^ 76 % 16 = 7) (variant : a / 2 ^ 62 % 4 = 2)
    (version' : b / 2 ^ 76 % 16 = 7) (variant' : b / 2 ^ 62 % 4 = 2) (ordered : a < b) :
    rankOf a < rankOf b := by
  obtain ⟨t, r, l, middle, low, rank, whole⟩ := fields_of version variant
  obtain ⟨t', r', l', middle', low', rank', whole'⟩ := fields_of version' variant'
  omega

theorem rankOf_small {value : ℕ} (version : value / 2 ^ 76 % 16 = 7) (variant : value / 2 ^ 62 % 4 = 2)
    (small : value < 2 ^ 128) : rankOf value < 2 ^ 122 := by
  obtain ⟨t, r, l, middle, low, rank, whole⟩ := fields_of version variant
  omega

/-- Every rank below the bound is that of a version 7 identity. -/
theorem ofRank_valid {rank : ℕ} (room : rank < 2 ^ 122) :
    ofRank rank < 2 ^ 128 ∧ ofRank rank / 2 ^ 76 % 16 = 7 ∧ ofRank rank / 2 ^ 62 % 4 = 2 := by
  obtain ⟨t, r, l, middle, low, rfl⟩ := rank_fields rank
  have same := @ofRank_fields t r l middle low
  rw [same]
  omega

/-! ### Identities -/

/-- A new identity in the order of admission: the candidate, or the successor of a floor that is
ahead of it. -/
def advanceOperationId (candidate : OperationId) (floor : Option OperationId) :
    Except String OperationId := do
  ensure (candidate.uuid.Valid ∧ ∀ f ∈ floor, f.uuid.Valid) "invalid admission identity"
  match floor with
  | none => pure candidate
  | some f =>
    if f < candidate then pure candidate
    else do
      let rank := rankOf f.uuid.toNat
      ensure (rank + 1 < 2 ^ 122) "operation identity space exhausted"
      pure ⟨BitVec.ofNat 128 (ofRank (rank + 1))⟩

theorem octet_variant : ∀ octet : BitVec 8, octet &&& 0xc0#8 = 0x80#8 → octet.toNat / 64 = 2 := by decide

theorem valid_fields {id : Uuid} (valid : id.Valid) :
    id.toNat / 2 ^ 76 % 16 = 7 ∧ id.toNat / 2 ^ 62 % 4 = 2 := by
  obtain ⟨version, variant⟩ := valid
  constructor
  · unfold Uuid.getVersionNum at version
    rw [BitVec.extractLsb'_toNat, Nat.shiftRight_eq_div_pow] at version
    exact version
  · unfold Uuid.getVariant at variant
    dsimp only at variant
    split at variant
    · cases variant
    split at variant
    next octet =>
      have high := octet_variant (id.extractLsb' 56 8) octet
      rw [BitVec.extractLsb'_toNat, Nat.shiftRight_eq_div_pow] at high
      have split : id.toNat / 2 ^ 56 / 64 = id.toNat / 2 ^ 62 := Nat.div_div_eq_div_mul _ (2 ^ 56) 64
      omega
    · split at variant <;> cases variant

theorem variant_octet : ∀ octet : BitVec 8, octet.toNat / 64 = 2 →
    octet &&& 0x80#8 ≠ 0x00#8 ∧ octet &&& 0xc0#8 = 0x80#8 := by decide

theorem fields_valid {id : Uuid} (version : id.toNat / 2 ^ 76 % 16 = 7)
    (variant : id.toNat / 2 ^ 62 % 4 = 2) : id.Valid := by
  constructor
  · unfold Uuid.getVersionNum
    rw [BitVec.extractLsb'_toNat, Nat.shiftRight_eq_div_pow]
    exact version
  · have octet : (id.extractLsb' 56 8).toNat / 64 = 2 := by
      rw [BitVec.extractLsb'_toNat, Nat.shiftRight_eq_div_pow]
      have split : id.toNat / 2 ^ 56 / 64 = id.toNat / 2 ^ 62 := Nat.div_div_eq_div_mul _ (2 ^ 56) 64
      omega
    obtain ⟨standard, matched⟩ := variant_octet _ octet
    unfold Uuid.getVariant
    dsimp only
    rw [if_neg standard, if_pos matched]

/-- Whatever the candidate, the identity lies above the floor. -/
theorem advanceOperationId_above {candidate id : OperationId} {floor : Option OperationId}
    (h : advanceOperationId candidate floor = .ok id) : ∀ f ∈ floor, f < id := by
  intro f found
  unfold advanceOperationId at h
  obtain ⟨checked, h⟩ := seq_ok.mp h
  obtain ⟨_, known⟩ := ensure_ok.mp checked
  rw [found] at h
  dsimp only at h
  split at h
  next ahead =>
    rw [← pure_ok.mp h]
    exact ahead
  · obtain ⟨room, h⟩ := seq_ok.mp h
    obtain ⟨version, variant⟩ := valid_fields (known f found)
    obtain ⟨above, small⟩ := ofRank_next version variant (ensure_ok.mp room)
    rw [← pure_ok.mp h, TypedId.lt_iff, BitVec.toNat_ofNat, Nat.mod_eq_of_lt small]
    exact above

example : advanceOperationId ⟨0x000000000000_7000_8000_000000000000#128⟩
    (some ⟨0x019a9fad3000_7fff_bfff_ffffffffffff#128⟩) =
      .ok ⟨0x019a9fad3001_7000_8000_000000000000#128⟩ := by decide

/-! ### The successor -/

/-- The first valid identity above a floor. -/
structure Successor (f id : OperationId) : Prop where
  valid : id.uuid.Valid
  above : f < id
  least : ∀ g : OperationId, g.uuid.Valid → f < g → id ≤ g

theorem successor_ofRank {f : OperationId} (known : f.uuid.Valid)
    (room : rankOf f.uuid.toNat + 1 < 2 ^ 122) :
    Successor f ⟨BitVec.ofNat 128 (ofRank (rankOf f.uuid.toNat + 1))⟩ := by
  obtain ⟨version, variant⟩ := valid_fields known
  obtain ⟨small, version', variant'⟩ := ofRank_valid room
  have exact : (BitVec.ofNat 128 (ofRank (rankOf f.uuid.toNat + 1))).toNat =
      ofRank (rankOf f.uuid.toNat + 1) := by
    rw [BitVec.toNat_ofNat, Nat.mod_eq_of_lt small]
  refine ⟨fields_valid (by rw [exact]; exact version') (by rw [exact]; exact variant'), ?_, ?_⟩
  · rw [TypedId.lt_iff, exact]
    exact (ofRank_next version variant room).1
  · intro g valid beyond
    obtain ⟨gversion, gvariant⟩ := valid_fields valid
    have ranked := rankOf_lt version variant gversion gvariant (TypedId.lt_iff.mp beyond)
    rw [TypedId.le_iff, exact, ← ofRank_rankOf gversion gvariant]
    exact ofRank_mono ranked

/-- The last rank has no successor. -/
theorem room_of_above {f g : OperationId} (known : f.uuid.Valid) (valid : g.uuid.Valid)
    (beyond : f < g) : rankOf f.uuid.toNat + 1 < 2 ^ 122 := by
  obtain ⟨version, variant⟩ := valid_fields known
  obtain ⟨gversion, gvariant⟩ := valid_fields valid
  have ranked := rankOf_lt version variant gversion gvariant (TypedId.lt_iff.mp beyond)
  have small := rankOf_small gversion gvariant g.uuid.isLt
  omega

/-- Of a valid candidate and a valid floor, the identity that admission takes next; nothing is
taken above a floor that is not valid. -/
theorem advanceOperationId_least (candidate : OperationId) (floor : Option OperationId)
    (valid : candidate.uuid.Valid) :
    (∀ id, advanceOperationId candidate floor = .ok id → id.uuid.Valid ∧
      ((∀ f ∈ floor, f < candidate) → id = candidate) ∧
      ∀ f ∈ floor, ¬f < candidate → Successor f id) ∧
    ((∀ f ∈ floor, f.uuid.Valid) → ((∃ e, advanceOperationId candidate floor = .error e) ↔
      ∃ f ∈ floor, ∀ g : OperationId, g.uuid.Valid → ¬f < g)) ∧
    ((∃ f ∈ floor, ¬f.uuid.Valid) →
      advanceOperationId candidate floor = .error "invalid admission identity") := by
  cases floor with
  | none =>
    have same : advanceOperationId candidate none = .ok candidate := by
      unfold advanceOperationId
      rw [seq_of_ok (ensure_ok.mpr ⟨valid, by rintro f ⟨⟩⟩)]
      rfl
    rw [same]
    refine ⟨?_, ?_, by rintro ⟨f, ⟨⟩, _⟩⟩
    · intro id taken
      obtain rfl := Except.ok.inj taken
      exact ⟨valid, fun _ => rfl, by rintro f ⟨⟩⟩
    · intro _
      constructor
      · rintro ⟨e, ⟨⟩⟩
      · rintro ⟨f, ⟨⟩, _⟩
  | some f =>
    by_cases known : f.uuid.Valid
    · have checked : ensure (candidate.uuid.Valid ∧ ∀ g ∈ some f, g.uuid.Valid)
          "invalid admission identity" = .ok () :=
        ensure_ok.mpr ⟨valid, by rintro g ⟨⟩; exact known⟩
      by_cases ahead : f < candidate
      · have same : advanceOperationId candidate (some f) = .ok candidate := by
          unfold advanceOperationId
          rw [seq_of_ok checked]
          dsimp only
          rw [if_pos ahead]
          rfl
        rw [same]
        refine ⟨?_, ?_, by rintro ⟨g, ⟨⟩, unknown⟩; exact absurd known unknown⟩
        · intro id taken
          obtain rfl := Except.ok.inj taken
          refine ⟨valid, fun _ => rfl, ?_⟩
          rintro g ⟨⟩ behind
          exact absurd ahead behind
        · intro _
          constructor
          · rintro ⟨e, ⟨⟩⟩
          · rintro ⟨g, ⟨⟩, last⟩
            exact absurd ahead (last candidate valid)
      · by_cases room : rankOf f.uuid.toNat + 1 < 2 ^ 122
        · have next := successor_ofRank known room
          have same : advanceOperationId candidate (some f) =
              .ok ⟨BitVec.ofNat 128 (ofRank (rankOf f.uuid.toNat + 1))⟩ := by
            unfold advanceOperationId
            rw [seq_of_ok checked]
            dsimp only
            rw [if_neg ahead, seq_of_ok (ensure_ok.mpr room)]
            rfl
          rw [same]
          refine ⟨?_, ?_, by rintro ⟨g, ⟨⟩, unknown⟩; exact absurd known unknown⟩
          · intro id taken
            obtain rfl := Except.ok.inj taken
            refine ⟨next.valid, fun above => absurd (above f rfl) ahead, ?_⟩
            rintro g ⟨⟩ _
            exact next
          · intro _
            constructor
            · rintro ⟨e, ⟨⟩⟩
            · rintro ⟨g, ⟨⟩, last⟩
              exact absurd next.above (last _ next.valid)
        · have refused : advanceOperationId candidate (some f) =
              .error "operation identity space exhausted" := by
            unfold advanceOperationId
            rw [seq_of_ok checked]
            dsimp only
            rw [if_neg ahead]
            exact seq_error.mpr (.inl (ensure_error.mpr ⟨room, rfl⟩))
          rw [refused]
          refine ⟨by rintro id ⟨⟩, fun _ => ?_, by rintro ⟨g, ⟨⟩, unknown⟩; exact absurd known unknown⟩
          exact ⟨fun _ => ⟨f, rfl, fun g valid beyond => room (room_of_above known valid beyond)⟩,
            fun _ => ⟨_, rfl⟩⟩
    · have refused : advanceOperationId candidate (some f) = .error "invalid admission identity" := by
        unfold advanceOperationId
        exact seq_error.mpr (.inl (ensure_error.mpr ⟨fun met => known (met.2 f rfl), rfl⟩))
      rw [refused]
      exact ⟨by rintro id ⟨⟩, fun met => absurd (met f rfl) known, fun _ => rfl⟩

/-- The carry of a full field goes into the timestamp. -/
theorem advanceOperationId_carries :
    Successor ⟨0x019a9fad3000_7fff_bfff_ffffffffffff#128⟩ ⟨0x019a9fad3001_7000_8000_000000000000#128⟩ :=
  ((advanceOperationId_least ⟨0x000000000000_7000_8000_000000000000#128⟩
    (some ⟨0x019a9fad3000_7fff_bfff_ffffffffffff#128⟩) (by decide)).1 _ (by decide)).2.2 _ rfl (by decide)

/-- The nil identity as a floor is refused, though the candidate is greater. -/
theorem advanceOperationId_invalid_floor :
    let candidate : OperationId := ⟨0x019a9fad3000_7000_8000_000000000000#128⟩
    candidate.uuid.Valid ∧ (⟨0⟩ : OperationId) < candidate ∧
      advanceOperationId candidate (some ⟨0⟩) = .error "invalid admission identity" := by
  decide

end HudsonSandbox.History
