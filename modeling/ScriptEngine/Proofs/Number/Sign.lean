import ScriptEngine.Proofs.Number.Equality

/-!
# The sign of a number

The parts of a double are read off its bits in two ways, as `Binary` and as an unpacked number. Both
see the same sign bit, exponent and mantissa, so a number that stands for a negative integer is less
than zero (`lt_zero_of_toInt?`).
-/

namespace ScriptEngine.Number

open Float.Model Float.Model.UnpackedFloat
open ScriptEngine.Decimal

/-! ## Bits -/

theorem toNat_unpackSign (b : BitVec Format.binary64.numBits) :
    (unpackSign b).toNat = b.toNat / 2 ^ 63 := by
  have hlt : b.toNat < 2 ^ 64 := b.isLt
  have hb : (unpackSign b).toNat = b.toNat / 2 ^ 63 % 2 := by
    unfold unpackSign
    rw [BitVec.toNat_cast, BitVec.extractLsb_toNat, Nat.shiftRight_eq_div_pow]
    rfl
  omega

/-- The exponent is in the eleven bits behind the sign. -/
theorem toNat_unpackExponent (b : BitVec Format.binary64.numBits) :
    (unpackExponent b).toNat = b.toNat / 2 ^ 52 % 2 ^ 11 := by
  unfold unpackExponent
  rw [BitVec.toNat_cast, BitVec.extractLsb_toNat, Nat.shiftRight_eq_div_pow]
  rfl

/-- The mantissa is in the last 52 bits. -/
theorem toNat_unpackMantissa (b : BitVec Format.binary64.numBits) :
    (unpackMantissa b).toNat = b.toNat % 2 ^ 52 := by
  unfold unpackMantissa
  rw [BitVec.toNat_cast, BitVec.extractLsb_toNat, Nat.shiftRight_zero]
  rfl

/-! ## Numbers below zero -/

/-- Doubles are in order as what they are unpacked to is. -/
theorem lt_iff_compare (x y : Float) :
    x < y ↔ x.toModel.unpack.compare y.toModel.unpack = some .lt := by
  show (decide ((x.toModel.unpack.compare y.toModel.unpack == some .lt) = true)) = true ↔ _
  rw [decide_eq_true_iff, beq_iff_eq]

/-- A double whose sign bit is set and whose mantissa is not zero is unpacked as a negative
number. -/
theorem unpack_negative {x : Float} {b : Binary} (hx : Binary.ofFloat? x = some b)
    (hsign : b.negative = true) (hmantissa : b.mantissa ≠ 0) :
    ∃ m e hm, x.toModel.unpack = .finite .negative m e hm := by
  obtain ⟨bits, hbits⟩ : ∃ bits : BitVec Format.binary64.numBits,
      bits = x.toModel.toBits.toBitVec :=
    ⟨_, rfl⟩
  obtain ⟨sign, hs, hcases⟩ := unpack_cases bits
  have hn := toNat_unpackSign bits
  have hfield := toNat_unpackExponent bits
  have hfraction := toNat_unpackMantissa bits
  rw [show x.toModel.unpack = UnpackedFloat.unpack Format.binary64 bits by rw [hbits]; rfl]
  unfold Binary.ofFloat? at hx
  rw [show x.toBits.toNat = bits.toNat by rw [hbits]; rfl] at hx
  extract_lets n field fraction at hx
  split at hx
  · cases hx
  next hfinite =>
  cases hx
  have hnegative : sign = .negative := by
    cases sign with
    | negative => rfl
    | positive =>
      have h : n / 2 ^ 63 = 1 := beq_iff_eq.mp hsign
      rw [← hs] at hn
      exact absurd (hn.trans h) (by decide)
  subst hnegative
  rcases hcases with ⟨he, -, -⟩ | ⟨he, -, -⟩ | ⟨he, hzero, -⟩ | ⟨m, e, hm, hunpack, -⟩
  · rw [he] at hfield
    exact absurd (beq_iff_eq.mpr hfield.symm) hfinite
  · rw [he] at hfield
    exact absurd (beq_iff_eq.mpr hfield.symm) hfinite
  · rw [he] at hfield
    rw [hzero] at hfraction
    have hsubnormal : field = 0 := hfield.symm
    refine absurd ?_ hmantissa
    show (if (field == 0) = true then fraction else Nat.pow 2 52 + fraction) = 0
    rw [if_pos (beq_iff_eq.mpr hsubnormal)]
    exact hfraction.symm
  · exact ⟨m, e, hm, hunpack⟩

theorem wholePart_of_zero {b : Binary} (h : b.mantissa = 0) : b.wholePart = 0 := by
  unfold Binary.wholePart
  rw [h, Nat.zero_mul, Nat.zero_div]

/-- A number that stands for a negative integer is less than zero. -/
theorem lt_zero_of_toInt? {x : Float} {i : Int} (hx : toInt? x = some i) (hi : i < 0) : x < 0 := by
  obtain ⟨b, hb, hwhole⟩ := Option.bind_eq_some_iff.mp hx
  split at hwhole
  · cases hwhole
    unfold Binary.truncate at hi
    split at hi
    · next hsign =>
      have hmantissa : b.mantissa ≠ 0 := fun hzero => by
        rw [wholePart_of_zero hzero] at hi
        exact absurd hi (by decide)
      obtain ⟨m, e, hm, hunpack⟩ := unpack_negative hb hsign hmantissa
      rw [lt_iff_compare, hunpack]
      rfl
    · omega
  · cases hwhole
end ScriptEngine.Number
