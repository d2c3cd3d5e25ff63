import Mathlib
import ScriptEngine.Proofs.Number.Sign

/-!
# Whole numbers

An integer of up to 53 bits has a double of its own, and the integer is read off that double again
(`toInt?_ofInt`). A double is made from an integer by moving its bits up until the top one stands
where a normal number has it. The machine then multiplies by one, which brings the mantissa to 105
bits, and rounds; the bits that are cut off are zeros, so that nothing is lost.

In the other direction, the integer that a double is cut off to is its value rounded toward zero
(`Binary.truncate_eq`).
-/

namespace ScriptEngine.Decimal.Binary

/-- The value of a finite double. -/
def value (b : Binary) : ℚ :=
  (if b.negative then -1 else 1) * (b.mantissa * 2 ^ b.exponent)

/-- A rational number without its fraction. -/
def towardZero (q : ℚ) : ℤ :=
  if q < 0 then ⌈q⌉ else ⌊q⌋

/-- The whole part is the floor of the magnitude. -/
theorem floor_magnitude (b : Binary) : ⌊(b.mantissa * 2 ^ b.exponent : ℚ)⌋ = b.wholePart := by
  have hquotient : (b.mantissa * 2 ^ b.exponent : ℚ) =
      ((b.mantissa * 2 ^ b.exponent.toNat : ℕ) : ℚ) / ((2 ^ (-b.exponent).toNat : ℕ) : ℚ) := by
    have htwo : (2 : ℚ) ≠ 0 := by norm_num
    have hexponent : ((b.exponent.toNat : ℤ) - ((-b.exponent).toNat : ℤ)) = b.exponent := by omega
    rw [Nat.cast_mul, Nat.cast_pow, Nat.cast_pow, Nat.cast_ofNat, mul_div_assoc, ← zpow_natCast,
      ← zpow_natCast, ← zpow_sub₀ htwo, hexponent]
  rw [hquotient, Rat.floor_natCast_div_natCast]
  rfl

/-- Cutting off the fraction rounds toward zero. -/
theorem truncate_eq (b : Binary) : b.truncate = towardZero b.value := by
  have hnonneg : (0 : ℚ) ≤ b.mantissa * 2 ^ b.exponent :=
    mul_nonneg (Nat.cast_nonneg _) (zpow_nonneg (by norm_num) _)
  have hfloor := floor_magnitude b
  unfold truncate towardZero value
  split
  · rw [neg_one_mul, Int.ceil_neg, hfloor]
    split
    · rfl
    · next hzero =>
      -- Only zero is not below zero with its sign changed.
      have hvalue : (b.mantissa * 2 ^ b.exponent : ℚ) = 0 := by linarith
      rw [hvalue, Int.floor_zero] at hfloor
      rw [hvalue, neg_zero, Int.floor_zero, ← hfloor, Int.neg_zero]
  · rw [one_mul, if_neg (not_lt.mpr hnonneg), hfloor]

end ScriptEngine.Decimal.Binary

namespace ScriptEngine.Number

open Float.Model Float.Model.UnpackedFloat
open ScriptEngine.Decimal

/-! ## Rounding that loses nothing -/

theorem shiftRight_exact (m k : Nat) :
    (⟨m * 2 ^ k, false, false⟩ : ExtendedMantissa) >>> k = ⟨m, false, false⟩ := by
  show Nat.repeat ExtendedMantissa.shiftRightOne k ⟨m * 2 ^ k, false, false⟩ = _
  induction k generalizing m with
  | zero => simp [Nat.repeat]
  | succ k ih =>
    have hsplit : m * 2 ^ (k + 1) = m * 2 * 2 ^ k := by rw [Nat.pow_succ]; ac_rfl
    show ExtendedMantissa.shiftRightOne (Nat.repeat ExtendedMantissa.shiftRightOne k _) = _
    rw [hsplit, ih (m * 2)]
    simp [ExtendedMantissa.shiftRightOne]

/-- A mantissa that is shifted has as many bits more. -/
theorem log2_mul_pow {m k : Nat} (hlow : 2 ^ 52 ≤ m) (hhigh : m < 2 ^ 53) :
    (m * 2 ^ k).log2 = 52 + k := by
  have hpos : m * 2 ^ k ≠ 0 := Nat.mul_ne_zero (by omega) (by positivity)
  rw [Nat.log2_eq_iff hpos]
  constructor
  · rw [Nat.pow_add]
    exact Nat.mul_le_mul_right _ hlow
  · rw [show 52 + k + 1 = 53 + k by omega, Nat.pow_add]
    exact Nat.mul_lt_mul_of_pos_right hhigh (by positivity)

/-- A shifted mantissa comes back to its own exponent. -/
theorem shiftToTargetExponent_exact {m k : Nat} {e : Int} (hlow : 2 ^ 52 ≤ m) (hhigh : m < 2 ^ 53)
    (he : -1074 ≤ e + k) :
    shiftToTargetExponent Format.binary64 (m * 2 ^ k) e .exact = (⟨m, false, false⟩, e + k) := by
  have htarget : Format.binary64.targetExponent (totalExponent (m * 2 ^ k) e) = e + k := by
    simp only [Format.targetExponent, totalExponent, log2_mul_pow hlow hhigh, Format.mantissaBits,
      Format.minExponent]
    omega
  unfold shiftToTargetExponent shiftToExponent
  simp only [htarget, show (e + k - e).toNat = k by omega]
  rw [show ExtendedMantissa.ofMantissaAndAccuracy (m * 2 ^ k) .exact = ⟨m * 2 ^ k, false, false⟩
    from rfl, shiftRight_exact]

/-- Rounding such a mantissa gives it back. -/
theorem roundWithAccuracy_exact {m k : Nat} {e : Int} (sign : Sign) (hlow : 2 ^ 52 ≤ m)
    (hhigh : m < 2 ^ 53) (he : -1074 ≤ e + k) :
    roundWithAccuracy Format.binary64 sign (m * 2 ^ k) e .exact =
      .finite sign m (e + k) (Nat.lt_of_lt_of_le (by decide) hlow) := by
  have hround : ExtendedMantissa.roundedMantissa ⟨m, false, false⟩ = m := rfl
  have hagain := shiftToTargetExponent_exact (k := 0) (e := e + k) hlow hhigh (by omega)
  rw [Nat.pow_zero, Nat.mul_one, Int.natCast_zero, Int.add_zero] at hagain
  unfold roundWithAccuracy
  simp only [shiftToTargetExponent_exact hlow hhigh he, hround, hagain]
  rw [dif_neg (by omega)]

/-- A mantissa whose top bit stands where a normal number has it is packed without that bit. -/
theorem pack_normal {m : Nat} {e : Int} {hm : 0 < m} (sign : Sign) (hlow : 2 ^ 52 ≤ m)
    (hhigh : m < 2 ^ 53) (he : e ≤ 971) :
    UnpackedFloat.pack Format.binary64 (.finite sign m e hm) =
      packComponents Format.binary64 sign (BitVec.ofNat 11 (e + 1023 + 52).toNat)
        (BitVec.ofNat 52 m) := by
  have hlog : m.log2 = 52 := by simpa using log2_mul_pow (k := 0) hlow hhigh
  unfold UnpackedFloat.pack
  simp only [Format.exponentBias, Format.mantissaBits, hlog]
  rw [if_neg (by norm_num; omega), if_pos (by norm_num)]
  rfl

/-- An exponent field that is neither all zeros nor all ones is that of a normal number. -/
theorem unpack_normal (sign : Sign) {field m : Nat} (hzeros : field ≠ 0) (hones : field < 2047) :
    UnpackedFloat.unpack Format.binary64
        (packComponents Format.binary64 sign (BitVec.ofNat 11 field) (BitVec.ofNat 52 m)) =
      .finite sign (2 ^ 52 + m % 2 ^ 52) ((field : Int) - 1023 - 52) (by omega) := by
  have hfield : (BitVec.ofNat 11 field).toNat = field := by
    rw [BitVec.toNat_ofNat, Nat.mod_eq_of_lt (by omega)]
  have hother : ∀ w : BitVec 11, field ≠ w.toNat → BitVec.ofNat 11 field ≠ w :=
    fun w hne heq => hne (hfield.symm.trans (congrArg BitVec.toNat heq))
  unfold UnpackedFloat.unpack
  simp only [unpackSign_packComponents, Sign.ofBitVec_toBitVec, unpackExponent_packComponents,
    unpackMantissa_packComponents]
  rw [if_neg (hother (-1#11) (Nat.ne_of_lt hones)), if_neg (hother 0#11 hzeros)]
  refine finite_congr ?_ ?_
  · rw [append_implicit, BitVec.toNat_ofNat]
  · rw [hfield]
    norm_num [Format.exponentBias]
    omega

/-- A normal number is unpacked as it was packed. -/
theorem unpack_pack_normal {m : Nat} {e : Int} {hm : 0 < m} (sign : Sign) (hlow : 2 ^ 52 ≤ m)
    (hhigh : m < 2 ^ 53) (he : -1074 ≤ e) (he' : e ≤ 971) :
    UnpackedFloat.unpack Format.binary64
        (UnpackedFloat.pack Format.binary64 (.finite sign m e hm)) =
      .finite sign m e hm := by
  rw [pack_normal sign hlow hhigh he', unpack_normal sign (by omega) (by omega)]
  exact finite_congr (by omega) (by omega)

/-- The parts of a normal number stand in its bits. -/
theorem parts_of_unpack {bits : BitVec Format.binary64.numBits} {sign : Sign} {m : Nat} {e : Int}
    {hm : 0 < m} (h : UnpackedFloat.unpack Format.binary64 bits = .finite sign m e hm)
    (hlow : 2 ^ 52 ≤ m) :
    sign.toBitVec.toNat = bits.toNat / 2 ^ 63 ∧ m = 2 ^ 52 + bits.toNat % 2 ^ 52 ∧
      e = ((bits.toNat / 2 ^ 52 % 2 ^ 11 : Nat) : Int) - 1075 := by
  obtain ⟨sign', hs, hcases⟩ := unpack_cases bits
  rw [h] at hcases
  rcases hcases with ⟨-, -, h⟩ | ⟨-, -, h⟩ | ⟨-, -, h⟩ | ⟨m', e', hm', h, hparts⟩ <;> cases h
  rw [toNat_unpackExponent, toNat_unpackMantissa] at hparts
  refine ⟨hs ▸ toNat_unpackSign bits, ?_⟩
  rcases hparts with ⟨-, hsmall, -⟩ | hnormal
  · omega
  · exact hnormal

/-- The parts of a normal number are the same in both forms. -/
theorem ofFloat?_of_unpack {x : Float} {sign : Sign} {m : Nat} {e : Int} {hm : 0 < m}
    (h : x.toModel.unpack = .finite sign m e hm) (hlow : 2 ^ 52 ≤ m) (he : -1074 ≤ e)
    (he' : e ≤ 971) :
    Binary.ofFloat? x = some ⟨sign.toBitVec.toNat == 1, m, e⟩ := by
  obtain ⟨hsign, hmantissa, hexponent⟩ := parts_of_unpack h hlow
  unfold Binary.ofFloat?
  extract_lets n field fraction
  have hfield : e = (field : Int) - 1075 := hexponent
  have hfinite : ¬(field == Nat.pow 2 11 - 1) = true := fun h => by
    have : field = 2047 := beq_iff_eq.mp h
    omega
  have hnormal : ¬(field == 0) = true := fun h => by
    have : field = 0 := beq_iff_eq.mp h
    omega
  rw [if_neg hfinite, if_neg hnormal, if_neg hnormal, hmantissa, hfield, hsign]
  rfl

/-! ## Whole numbers -/

/-- An integer with its bits moved up until the top one stands where a normal number has it. -/
def leading (n : Nat) : Nat :=
  n * 2 ^ (52 - n.log2)

/-- A number below 2^53 has at most 53 bits. -/
theorem log2_le {n : Nat} (hpos : 0 < n) (hlt : n < 2 ^ 53) : n.log2 ≤ 52 :=
  Nat.lt_succ_iff.mp ((Nat.log2_lt hpos.ne').mpr hlt)

theorem leading_pos {n : Nat} (hpos : 0 < n) : 0 < leading n :=
  Nat.mul_pos hpos (by positivity)

theorem le_leading {n : Nat} (hpos : 0 < n) (hlt : n < 2 ^ 53) : 2 ^ 52 ≤ leading n := by
  have hlog := log2_le hpos hlt
  calc 2 ^ 52 = 2 ^ n.log2 * 2 ^ (52 - n.log2) := by rw [← Nat.pow_add]; congr 1; omega
    _ ≤ leading n := Nat.mul_le_mul_right _ (Nat.log2_self_le hpos.ne')

theorem leading_lt {n : Nat} (hpos : 0 < n) (hlt : n < 2 ^ 53) : leading n < 2 ^ 53 := by
  have hlog := log2_le hpos hlt
  calc leading n < 2 ^ (n.log2 + 1) * 2 ^ (52 - n.log2) :=
      Nat.mul_lt_mul_of_pos_right Nat.lt_log2_self (by positivity)
    _ = 2 ^ 53 := by rw [← Nat.pow_add]; congr 1; omega

/-- The unpacked form of an integer that is not zero. -/
def whole (sign : Sign) (n : Nat) (hpos : 0 < n) : UnpackedFloat :=
  .finite sign (leading n) ((n.log2 : Int) - 52) (leading_pos hpos)

section

variable {n : Nat} (sign : Sign) (hpos : 0 < n) (hlt : n < 2 ^ 53)
include hlt

/-- A whole number below 2^53 is unpacked as it was packed. -/
theorem unpack_pack_whole :
    UnpackedFloat.unpack Format.binary64 (UnpackedFloat.pack Format.binary64 (whole sign n hpos)) =
      whole sign n hpos := by
  have hlog := log2_le hpos hlt
  exact unpack_pack_normal sign (le_leading hpos hlt) (leading_lt hpos hlt) (by omega) (by omega)

/-- Rounding brings an integer into this form, also after its mantissa has been moved up. -/
theorem roundWithAccuracy_whole (k : Nat) :
    roundWithAccuracy Format.binary64 sign (leading n * 2 ^ k) ((n.log2 : Int) - 52 - k) .exact =
      whole sign n hpos := by
  have hsink : (n.log2 : Int) - 52 - k + k = (n.log2 : Int) - 52 := by omega
  rw [roundWithAccuracy_exact sign (le_leading hpos hlt) (leading_lt hpos hlt) (by omega)]
  exact finite_congr rfl hsink

/-- A number below 2^53 is converted exactly. -/
theorem ofNat_whole : UnpackedFloat.ofNat Format.binary64 n = whole .positive n hpos := by
  have hlog := log2_le hpos hlt
  have hcompare : compare (n : Int) 0 = .gt := Int.compare_eq_gt.mpr (by omega)
  have htarget : Format.binary64.targetExponent (totalExponent n 0) = (n.log2 : Int) - 52 := by
    simp only [Format.targetExponent, totalExponent, Format.mantissaBits, Format.minExponent]
    omega
  have hamount : (0 - ((n.log2 : Int) - 52)).toNat = 52 - n.log2 := by omega
  have hsink : (0 : Int) - ((52 - n.log2 : Nat) : Int) = (n.log2 : Int) - 52 := by omega
  have hround := roundWithAccuracy_whole .positive hpos hlt 0
  rw [Nat.pow_zero, Nat.mul_one, Int.natCast_zero, Int.sub_zero] at hround
  unfold UnpackedFloat.ofNat UnpackedFloat.ofInt UnpackedFloat.normalize
  rw [hcompare]
  simp only [UnpackedFloat.round, Int.toNat_natCast, htarget, decreaseExponent, Nat.shiftLeft_eq,
    hamount, hsink]
  exact hround

/-- Multiplying by one changes nothing. -/
theorem mul_one_whole :
    UnpackedFloat.mul Format.binary64 (whole sign n hpos)
      (.finite .positive (2 ^ 52) (-52) (by decide)) = whole sign n hpos := by
  have hsign : sign * .positive = sign := by cases sign <;> rfl
  have hround := roundWithAccuracy_whole sign hpos hlt 52
  unfold whole UnpackedFloat.mul
  dsimp only
  rw [hsign]
  exact hround

/-- The double of a number below 2^53 is that number. -/
theorem unpack_ofNat : (Float.ofNat n).toModel.unpack = whole .positive n hpos := by
  have hword : n.toUInt64.toFloat.toModel.unpack = whole .positive n hpos := by
    show UnpackedFloat.unpack Format.binary64 (UnpackedFloat.pack Format.binary64
      (UnpackedFloat.ofNat Format.binary64 (n % 2 ^ 64))) = _
    rw [Nat.mod_eq_of_lt (by omega), ofNat_whole hpos hlt, unpack_pack_whole .positive hpos hlt]
  have hmul : Float.ofNat n = n.toUInt64.toFloat * Float.ofBits 0x3FF0000000000000 := by
    show Float.ofScientific n false 0 = _
    unfold Float.ofScientific
    rw [dif_pos ⟨hlt, by decide⟩, if_neg (by decide)]
    rfl
  have hone : (Float.ofBits 0x3FF0000000000000).toModel.unpack =
      .finite .positive (2 ^ 52) (-52) (by decide) := rfl
  rw [hmul]
  show UnpackedFloat.unpack Format.binary64 (UnpackedFloat.pack Format.binary64
    (UnpackedFloat.mul Format.binary64 n.toUInt64.toFloat.toModel.unpack
      (Float.ofBits 0x3FF0000000000000).toModel.unpack)) = _
  rw [hword, hone, mul_one_whole .positive hpos hlt, unpack_pack_whole .positive hpos hlt]

/-- The integer is read off this form. -/
theorem toInt?_of_whole {x : Float} (hunpack : x.toModel.unpack = whole sign n hpos) :
    toInt? x = some (if sign.toBitVec.toNat == 1 then -(n : Int) else n) := by
  have hlog := log2_le hpos hlt
  have hup : ((n.log2 : Int) - 52).toNat = 0 := by omega
  have hdown : (-((n.log2 : Int) - 52)).toNat = 52 - n.log2 := by omega
  have hwhole :
      Binary.isWhole ⟨sign.toBitVec.toNat == 1, leading n, (n.log2 : Int) - 52⟩ = true := by
    unfold Binary.isWhole
    rw [hdown]
    exact beq_iff_eq.mpr (Nat.mul_mod_left _ _)
  have hpart : Binary.wholePart ⟨sign.toBitVec.toNat == 1, leading n, (n.log2 : Int) - 52⟩ = n := by
    unfold Binary.wholePart
    rw [hup, hdown]
    exact (congrArg (· / _) (Nat.mul_one _)).trans (Nat.mul_div_cancel _ (by positivity))
  unfold toInt?
  rw [ofFloat?_of_unpack hunpack (le_leading hpos hlt) (by omega) (by omega), Option.bind_some,
    if_pos hwhole]
  unfold Binary.truncate
  rw [hpart]

end

/-- An integer of up to 53 bits is a double of its own. -/
theorem toInt?_ofInt {i : Int} (hi : i.natAbs < 2 ^ 53) : toInt? (Float.ofInt i) = some i := by
  cases i with
  | ofNat n =>
    rcases Nat.eq_zero_or_pos n with rfl | hpos
    · decide +kernel
    · exact toInt?_of_whole .positive hpos hi (unpack_ofNat hpos hi)
  | negSucc n =>
    have hpos : 0 < n + 1 := n.succ_pos
    have hlt : n + 1 < 2 ^ 53 := hi
    have hunpack : (Float.ofInt (Int.negSucc n)).toModel.unpack = whole .negative (n + 1) hpos := by
      show UnpackedFloat.unpack Format.binary64 (UnpackedFloat.pack Format.binary64
        (Float.ofNat (n + 1)).toModel.unpack.neg) = _
      rw [unpack_ofNat hpos hlt]
      exact unpack_pack_whole .negative hpos hlt
    exact toInt?_of_whole .negative hpos hlt hunpack

end ScriptEngine.Number
