import Mathlib.Algebra.Group.Nat.Defs
import Mathlib.Data.Option.Basic
import ScriptEngine.Number

/-!
# Equality of numbers

Two numbers are equal when they stand for the same value: both zeros do, and what is not a number
stands for no value, so that it is not equal to itself. Otherwise the bits decide
(`beq_iff_canonicalBits`), because apart from the sign of zero a value has one pattern of bits.
-/

namespace ScriptEngine.Number

open Float.Model Float.Model.UnpackedFloat

/-! ## Numbers as values -/

/-- What an unpacked number stands for: a zero without its sign, and nothing if it is not a
number. -/
def value? : UnpackedFloat → Option UnpackedFloat
  | .notANumber => none
  | .zero _ => some (.zero .positive)
  | u => some u

theorem compare_sign (s s' : Sign) : compare s s' = .eq ↔ s = s' := by
  cases s <;> cases s' <;> simp [compare]

/-- Two sizes compare as equal if mantissa and exponent are the same. -/
theorem compare_size (m m' : Nat) (e e' : Int) :
    (compare e e').then (compare m m') = .eq ↔ m = m' ∧ e = e' := by
  simp only [Ordering.then_eq_eq, Std.compare_eq_iff_eq, and_comm]

theorem finite_congr {sign : Sign} {m m' : Nat} {e e' : Int} {hm : 0 < m} {hm' : 0 < m'}
    (hmantissa : m = m') (hexponent : e = e') :
    UnpackedFloat.finite sign m e hm = .finite sign m' e' hm' := by
  subst hmantissa hexponent
  rfl

/-- Two finite numbers compare as equal only if they are the same. -/
theorem compare_finite {m m' : Nat} {e e' : Int} (hm : 0 < m) (hm' : 0 < m') (s s' : Sign) :
    (finite s m e hm).compare (finite s' m' e' hm') = some .eq ↔
      finite s m e hm = finite s' m' e' hm' := by
  have hfinite : ∀ {o : Ordering}, (o = .eq ↔ m = m' ∧ e = e') →
      (some o = some .eq ↔ finite s m e hm = finite s m' e' hm') := fun ho => by
    rw [Option.some_inj, ho]
    exact ⟨fun hsize => finite_congr hsize.1 hsize.2, fun heq => by cases heq; exact ⟨rfl, rfl⟩⟩
  cases s with
  | positive =>
    cases s' with
    | positive => exact hfinite (compare_size m m' e e')
    | negative => exact iff_of_false (fun h => by cases h) fun h => by cases h
  | negative =>
    cases s' with
    | positive => exact iff_of_false (fun h => by cases h) fun h => by cases h
    | negative => exact hfinite (Ordering.swap_eq_eq.trans (compare_size m m' e e'))

/-- Numbers compare as equal if they have the same value. -/
theorem compare_eq_iff (u w : UnpackedFloat) :
    u.compare w = some .eq ↔ (value? u).isSome ∧ value? u = value? w := by
  have hapart : ∀ {o : Option Ordering} {x : Prop}, o ≠ some .eq → value? u ≠ value? w →
      (o = some .eq ↔ x ∧ value? u = value? w) := fun ho hne =>
    iff_of_false ho fun h => hne h.2
  cases u with
  | notANumber => exact iff_of_false (fun h => by cases h) fun h => by cases h.1
  | infinity s =>
    cases w with
    | infinity s' =>
      show some (compare s s') = some .eq ↔ _
      rw [Option.some_inj, compare_sign]
      exact ⟨fun heq => ⟨rfl, heq ▸ rfl⟩, fun h => by cases h.2; rfl⟩
    | _ => cases s <;> exact hapart (fun h => by cases h) fun h => by cases h
  | zero s =>
    cases w with
    | zero s' => exact iff_of_true rfl ⟨rfl, rfl⟩
    | notANumber => exact hapart (fun h => by cases h) fun h => by cases h
    | infinity s' => cases s' <;> exact hapart (fun h => by cases h) fun h => by cases h
    | finite s' m' e' hm' => cases s' <;> exact hapart (fun h => by cases h) fun h => by cases h
  | finite s m e hm =>
    cases w with
    | finite s' m' e' hm' =>
      exact (compare_finite hm hm' s s').trans
        ⟨fun heq => ⟨rfl, congrArg some heq⟩, fun h => Option.some.inj h.2⟩
    | notANumber => cases s <;> exact hapart (fun h => by cases h) fun h => by cases h
    | infinity s' => cases s' <;> exact hapart (fun h => by cases h) fun h => by cases h
    | zero s' => cases s <;> exact hapart (fun h => by cases h) fun h => by cases h

/-- Doubles are equal if they have the same value, which none has that is no number. -/
theorem beq_iff_value? {x y : Float} :
    (x == y) = true ↔ (value? x.toModel.unpack).isSome ∧
      value? x.toModel.unpack = value? y.toModel.unpack := by
  rw [← compare_eq_iff]
  show (x.toModel.unpack.compare y.toModel.unpack == some .eq) = true ↔ _
  exact beq_iff_eq

theorem beq_symm {x y : Float} (h : (x == y) = true) : (y == x) = true := by
  obtain ⟨hsome, heq⟩ := beq_iff_value?.mp h
  exact beq_iff_value?.mpr ⟨heq ▸ hsome, heq.symm⟩

theorem beq_trans {x y z : Float} (hxy : (x == y) = true) (hyz : (y == z) = true) :
    (x == z) = true := by
  obtain ⟨hsome, heq⟩ := beq_iff_value?.mp hxy
  exact beq_iff_value?.mpr ⟨hsome, heq.trans (beq_iff_value?.mp hyz).2⟩

theorem isSome_value? {x : Float} (h : x.isNaN = false) : (value? x.toModel.unpack).isSome := by
  change x.toModel.unpack.isNaN = false at h
  cases hx : x.toModel.unpack with
  | notANumber =>
    rw [hx] at h
    cases h
  | _ => rfl

/-! ## Values and bits -/

/-- The three parts of a pattern of bits make it up. -/
theorem parts_ext {b b' : BitVec Format.binary64.numBits}
    (hsign : unpackSign b = unpackSign b') (hexponent : unpackExponent b = unpackExponent b')
    (hmantissa : unpackMantissa b = unpackMantissa b') : b = b' := by
  refine BitVec.eq_of_getLsbD_eq fun i hi => ?_
  rcases Nat.lt_or_ge i 52 with hm | hm
  · have h := congrArg (·.getLsbD i) hmantissa
    simpa [unpackMantissa, hm, Nat.le_of_lt_succ hm] using h
  rcases Nat.lt_or_ge i 63 with he | he
  · have h := congrArg (·.getLsbD (i - 52)) hexponent
    have hlt : i - 52 < 11 := by omega
    have hadd : 52 + (i - 52) = i := by omega
    simpa [unpackExponent, hlt, hadd] using h
  · have h : (BitVec.extractLsb 63 63 b).getLsbD 0 = (BitVec.extractLsb 63 63 b').getLsbD 0 :=
      congrArg (·.getLsbD 0) hsign
    obtain rfl : i = 63 := by
      have : i < 64 := hi
      omega
    simpa using h

theorem append_implicit (m : BitVec 52) : (1#1 ++ m).toNat = 2 ^ 52 + m.toNat := by
  rw [BitVec.toNat_append, ← Nat.shiftLeft_add_eq_or_of_lt m.isLt]
  rfl

theorem toBitVec_ofBitVec (s : BitVec 1) : (Sign.ofBitVec s).toBitVec = s := by
  revert s
  decide

/-- How the parts of a pattern of bits are unpacked. -/
theorem unpack_cases (b : BitVec Format.binary64.numBits) :
    ∃ sign : Sign, sign.toBitVec = unpackSign b ∧
      ((unpackExponent b = -1#_ ∧ unpackMantissa b = 0#_ ∧
          UnpackedFloat.unpack Format.binary64 b = .infinity sign) ∨
        (unpackExponent b = -1#_ ∧ unpackMantissa b ≠ 0#_ ∧
          UnpackedFloat.unpack Format.binary64 b = .notANumber) ∨
        (unpackExponent b = 0#_ ∧ unpackMantissa b = 0#_ ∧
          UnpackedFloat.unpack Format.binary64 b = .zero sign) ∨
        ∃ mantissa exponent hpos,
          UnpackedFloat.unpack Format.binary64 b = .finite sign mantissa exponent hpos ∧
          (unpackExponent b = 0#_ ∧ mantissa = (unpackMantissa b).toNat ∧ exponent = -1074 ∨
            mantissa = 2 ^ 52 + (unpackMantissa b).toNat ∧
              exponent = ((unpackExponent b).toNat : Int) - 1075)) := by
  refine ⟨Sign.ofBitVec (unpackSign b), toBitVec_ofBitVec _, ?_⟩
  unfold UnpackedFloat.unpack
  dsimp only
  by_cases he : unpackExponent b = -1#_
  · by_cases hm : unpackMantissa b = 0#_
    · exact Or.inl ⟨he, hm, by rw [if_pos he, if_pos hm]⟩
    · exact Or.inr (Or.inl ⟨he, hm, by rw [if_pos he, if_neg hm]⟩)
  · by_cases hz : unpackExponent b = 0#_
    · by_cases hm : unpackMantissa b = 0#_
      · exact Or.inr (Or.inr (Or.inl ⟨hz, hm, by rw [if_neg he, if_pos hz, dif_pos hm]⟩))
      · have hpos : 0 < (unpackMantissa b).toNat := by
          simpa [BitVec.toNat_pos, BitVec.pos_iff_ne_zero] using hm
        refine Or.inr (Or.inr (Or.inr ⟨_, _, hpos, ?_, Or.inl ⟨hz, rfl, rfl⟩⟩))
        rw [if_neg he, if_pos hz, dif_neg hm]
        refine finite_congr rfl ?_
        rw [hz]
        rfl
    · have hpos : 0 < (1#1 ++ unpackMantissa b).toNat := by
        rw [append_implicit]
        omega
      refine Or.inr (Or.inr (Or.inr ⟨_, _, hpos, ?_, Or.inr ⟨append_implicit _, rfl⟩⟩))
      rw [if_neg he, if_neg hz]
      exact finite_congr rfl rfl

/-- A pattern of bits is unpacked to nothing else than any other. -/
theorem unpack_injective {b b' : BitVec Format.binary64.numBits} (hb : Format.binary64.Valid b)
    (hb' : Format.binary64.Valid b')
    (h : UnpackedFloat.unpack Format.binary64 b = UnpackedFloat.unpack Format.binary64 b') :
    b = b' := by
  have hm : (unpackMantissa b).toNat < 2 ^ 52 := (unpackMantissa b).isLt
  have hm' : (unpackMantissa b').toNat < 2 ^ 52 := (unpackMantissa b').isLt
  obtain ⟨sign, hs, hcases⟩ := unpack_cases b
  obtain ⟨sign', hs', hcases'⟩ := unpack_cases b'
  rcases hcases with ⟨he, hz, hu⟩ | ⟨he, hz, hu⟩ | ⟨he, hz, hu⟩ | ⟨m, e, hpos, hu, hparts⟩ <;>
    rcases hcases' with ⟨he', hz', hu'⟩ | ⟨he', hz', hu'⟩ | ⟨he', hz', hu'⟩ |
      ⟨m', e', hpos', hu', hparts'⟩ <;>
    rw [hu, hu'] at h <;> cases h
  -- Infinities, what is not a number, zeros, and finite numbers.
  · exact parts_ext (hs.symm.trans hs') (he.trans he'.symm) (hz.trans hz'.symm)
  · exact (hb.eq_packedNaN he hz).trans (hb'.eq_packedNaN he' hz').symm
  · exact parts_ext (hs.symm.trans hs') (he.trans he'.symm) (hz.trans hz'.symm)
  · rcases hparts with ⟨he, hmantissa, hx⟩ | ⟨hmantissa, hx⟩ <;>
      rcases hparts' with ⟨he', hmantissa', hx'⟩ | ⟨hmantissa', hx'⟩
    · exact parts_ext (hs.symm.trans hs') (he.trans he'.symm)
        (BitVec.eq_of_toNat_eq (hmantissa.symm.trans hmantissa'))
    -- The mantissa of a subnormal number lacks the leading bit.
    · omega
    · omega
    · exact parts_ext (hs.symm.trans hs') (BitVec.eq_of_toNat_eq (by omega))
        (BitVec.eq_of_toNat_eq (by omega))

/-- A double is given by its sign, mantissa and exponent. -/
theorem eq_of_unpack {x y : Float} (h : x.toModel.unpack = y.toModel.unpack) : x = y := by
  obtain ⟨⟨x, hx⟩⟩ := x
  obtain ⟨⟨y, hy⟩⟩ := y
  obtain rfl : x = y := UInt64.toBitVec_inj.mp (unpack_injective hx hy h)
  rfl

theorem eq_of_toBits {x y : Float} (h : x.toBits = y.toBits) : x = y := by
  obtain ⟨⟨x, hx⟩⟩ := x
  obtain ⟨⟨y, hy⟩⟩ := y
  obtain rfl : x = y := h
  rfl

theorem value?_zero : value? (0 : Float).toModel.unpack = some (.zero .positive) :=
  rfl

/-- The bits of a number, with one pattern for both zeros. -/
def canonicalBits (x : Float) : UInt64 :=
  if x == 0 then 0 else x.toBits

/-- Apart from zeros, a number stands for itself. -/
theorem value?_eq_some {u v : UnpackedFloat} (h : value? u = some v) :
    u = v ∨ v = .zero .positive := by
  cases u with
  | notANumber => cases h
  | zero s => exact Or.inr (Option.some.inj h).symm
  | infinity s => exact Or.inl (Option.some.inj h)
  | finite s m e hm => exact Or.inl (Option.some.inj h)

/-- Two numbers with the same value are the same, or both are zero. -/
theorem value?_inj {u w : UnpackedFloat} (hsome : (value? u).isSome) (h : value? u = value? w) :
    u = w ∨ value? u = some (.zero .positive) := by
  obtain ⟨v, hv⟩ := Option.isSome_iff_exists.mp hsome
  rcases value?_eq_some hv with rfl | rfl
  · rcases value?_eq_some (h ▸ hv) with rfl | rfl
    · exact Or.inl rfl
    · exact Or.inr hv
  · exact Or.inr hv

/-- Apart from zeros, numbers are equal when they are the same. -/
theorem eq_of_beq {x y : Float} (h : (x == y) = true) : x = y ∨ (x == 0) = true := by
  obtain ⟨hsome, heq⟩ := beq_iff_value?.mp h
  rcases value?_inj hsome heq with hunpack | hzero
  · exact Or.inl (eq_of_unpack hunpack)
  · exact Or.inr (beq_iff_value?.mpr ⟨hsome, hzero.trans value?_zero.symm⟩)

theorem beq_self {x : Float} (h : x.isNaN = false) : (x == x) = true :=
  beq_iff_value?.mpr ⟨isSome_value? h, rfl⟩

/-- What is not a number is equal to nothing. -/
theorem isNaN_of_beq {x y : Float} (h : (x == y) = true) : x.isNaN = false := by
  obtain ⟨hsome, -⟩ := beq_iff_value?.mp h
  show x.toModel.unpack.isNaN = false
  cases hx : x.toModel.unpack with
  | notANumber =>
    rw [hx] at hsome
    cases hsome
  | _ => rfl

/-- Only zeros have the bits of zero for canonical ones. -/
theorem beq_zero_iff {x : Float} : (x == 0) = true ↔ canonicalBits x = 0 := by
  unfold canonicalBits
  split
  · next hzero => exact iff_of_true hzero rfl
  · next hzero =>
    refine iff_of_false hzero fun hbits => hzero ?_
    rw [eq_of_toBits (y := 0) hbits]
    exact beq_self rfl

/-- Apart from the sign of zero, the bits of two numbers decide whether they are equal. -/
theorem beq_iff_canonicalBits {x y : Float} (hx : x.isNaN = false) :
    (x == y) = true ↔ canonicalBits x = canonicalBits y := by
  constructor
  · intro h
    rcases eq_of_beq h with rfl | hzero
    · rfl
    · rw [beq_zero_iff.mp hzero, beq_zero_iff.mp (beq_trans (beq_symm h) hzero)]
  · intro h
    by_cases hzero : canonicalBits x = 0
    · exact beq_trans (beq_zero_iff.mpr hzero) (beq_symm (beq_zero_iff.mpr (h ▸ hzero)))
    · have hx0 : ¬ (x == 0) = true := fun h0 => hzero (beq_zero_iff.mp h0)
      have hy0 : ¬ (y == 0) = true := fun h0 => hzero (h.trans (beq_zero_iff.mp h0))
      rw [canonicalBits, canonicalBits, if_neg hx0, if_neg hy0] at h
      rw [← eq_of_toBits h]
      exact beq_self hx

end ScriptEngine.Number
