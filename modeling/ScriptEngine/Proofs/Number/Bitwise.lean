import ScriptEngine.Proofs.Number.Whole
import ScriptEngine.Proofs.Session.Play

/-!
# Bitwise operators

An operand of a bitwise operator counts as a signed word of 32 bits: the representative of its
integer part modulo `2 ^ 32`. The low half of a 64-bit word is such a representative, but an integer
part that has no 64-bit word of its own goes to the nearest one first, so that every number from
`2 ^ 63` on counts as `-1` and every number below `-2 ^ 63` as `0`. `Number.counted` says so, and
`bitwise_operators_count_words` is what follows for the operators.
-/

namespace ScriptEngine

namespace Number

open Decimal

/-! ## Words -/

/-- The word that an integer part counts as. -/
def counted (i : ℤ) : ℤ :=
  if i < -2 ^ 63 then 0
  else if i < 2 ^ 63 then i.bmod (2 ^ 32)
  else -1

/-- The integer part of a number, which what is not finite does not have. -/
def integerPart? (x : Float) : Option ℤ :=
  (Binary.ofFloat? x).map fun b => Binary.towardZero b.value

/-- The integer part of a double is that of its mantissa and exponent. -/
theorem integerPart?_eq (x : Float) :
    integerPart? x = (Binary.ofFloat? x).map Binary.truncate :=
  congrArg (Option.map · _) (funext fun b => b.truncate_eq.symm)

/-- The word that an operand counts as. -/
def word (x : Float) : ℤ :=
  ((integerPart? x).map counted).getD 0

/-- Clamping first and taking the low half then gives the counted word. -/
theorem bmod_clamped (i : ℤ) :
    (max (-2 ^ 63) (min (2 ^ 63 - 1) i)).bmod (2 ^ 32) = counted i := by
  unfold counted
  split
  · next hbelow =>
    rw [show max (-2 ^ 63) (min (2 ^ 63 - 1) i) = -2 ^ 63 by omega]
    rfl
  · split
    · rw [show max (-2 ^ 63) (min (2 ^ 63 - 1) i) = i by omega]
    · rw [show max (-2 ^ 63) (min (2 ^ 63 - 1) i) = 2 ^ 63 - 1 by omega]
      rfl

/-- The word of a double is the one that is counted. -/
theorem toInt_toWord (x : Float) : (toWord x).toInt = word x := by
  unfold toWord toInt64 word
  rw [Int32.toInt_ofInt, integerPart?_eq]
  cases Binary.ofFloat? x with
  | none => rfl
  | some b => exact bmod_clamped b.truncate

/-! ## Bits of signed words -/

/-- The bits of a signed word go on forever, as copies of its sign. -/
theorem testBit_toInt {width : Nat} (w : BitVec width) (i : Nat) :
    w.toInt.testBit i = if i < width then w.getLsbD i else w.msb := by
  have hlt : w.toNat < 2 ^ width := w.isLt
  cases hsign : w.msb with
  | false =>
    rw [BitVec.toInt_eq_toNat_of_msb hsign]
    show w.toNat.testBit i = _
    split
    · rfl
    · next hi =>
      exact Nat.testBit_lt_two_pow (Nat.lt_of_lt_of_le hlt (Nat.pow_le_pow_right (by decide)
        (Nat.le_of_not_lt hi)))
  | true =>
    have hneg : w.toInt = Int.negSucc (2 ^ width - (w.toNat + 1)) := by
      have hsize : ((2 ^ width : ℕ) : ℤ) = 2 ^ width := Nat.cast_pow 2 width
      rw [BitVec.toInt_eq_msb_cond, if_pos hsign, Int.negSucc_eq]
      omega
    rw [hneg]
    show (!(2 ^ width - (w.toNat + 1)).testBit i) = _
    rw [Nat.testBit_two_pow_sub_succ hlt]
    split
    · next hi => simp [hi, BitVec.getLsbD]
    · next hi => simp [hi]

/-- Integers with the same bits are the same. -/
theorem eq_of_testBit {a b : ℤ} (h : ∀ i, a.testBit i = b.testBit i) : a = b := by
  -- Behind all bits of the magnitude stands the sign.
  have hsign : ∀ m n : Nat, ∃ i, m.testBit i ≠ !n.testBit i := fun m n =>
    ⟨m + n, by
      have hm : m < 2 ^ (m + n) := Nat.lt_of_le_of_lt (Nat.le_add_right m n) Nat.lt_two_pow_self
      have hn : n < 2 ^ (m + n) := Nat.lt_of_le_of_lt (Nat.le_add_left n m) Nat.lt_two_pow_self
      rw [Nat.testBit_lt_two_pow hm, Nat.testBit_lt_two_pow hn]
      decide⟩
  cases a with
  | ofNat m =>
    cases b with
    | ofNat n => exact congrArg Int.ofNat (Nat.eq_of_testBit_eq h)
    | negSucc n =>
      obtain ⟨i, hi⟩ := hsign m n
      exact absurd (h i) hi
  | negSucc m =>
    cases b with
    | ofNat n =>
      obtain ⟨i, hi⟩ := hsign n m
      exact absurd (h i).symm hi
    | negSucc n =>
      exact congrArg Int.negSucc (Nat.eq_of_testBit_eq fun i => Bool.not_inj (h i))

/-- The signed or of two words is that of their values. -/
theorem toInt_or (v w : Int32) : (v ||| w).toInt = v.toInt.lor w.toInt := by
  refine eq_of_testBit fun i => ?_
  rw [Int.testBit_lor, ← Int32.toInt_toBitVec, ← Int32.toInt_toBitVec, ← Int32.toInt_toBitVec,
    testBit_toInt, testBit_toInt, testBit_toInt, Int32.toBitVec_or]
  split
  · exact BitVec.getLsbD_or
  · exact BitVec.msb_or

/-- The signed and of two words is that of their values. -/
theorem toInt_and (v w : Int32) : (v &&& w).toInt = v.toInt.land w.toInt := by
  refine eq_of_testBit fun i => ?_
  rw [Int.testBit_land, ← Int32.toInt_toBitVec, ← Int32.toInt_toBitVec, ← Int32.toInt_toBitVec,
    testBit_toInt, testBit_toInt, testBit_toInt, Int32.toBitVec_and]
  split
  · exact BitVec.getLsbD_and
  · exact BitVec.msb_and

/-- A word is a number of its own. -/
theorem toInt?_ofWord (w : Int32) : toInt? (ofWord w) = some w.toInt := by
  have hlow := w.le_toInt
  have hhigh := w.toInt_lt
  exact toInt?_ofInt (by omega)

end Number

/-! ## Operators -/

namespace Evaluator

/-- On any two numbers, the operators answer with the number of the bitwise or and of the bitwise
and of the words that the operands count as, and leave the machine as it is. -/
theorem bitwise_operators_count_words (ev : Evaluator) (x y : Float) (operator : Token)
    (m : Machine) :
    (∃ z, Number.toInt? z = some ((Number.word x).lor (Number.word y)) ∧
      ev.binaryOperation (.number x) { operator with kind := .pipe } (.number y) m =
        .ok (.number z) m) ∧
    ∃ z, Number.toInt? z = some ((Number.word x).land (Number.word y)) ∧
      ev.binaryOperation (.number x) { operator with kind := .ampersand } (.number y) m =
        .ok (.number z) m := by
  rw [← Number.toInt_toWord x, ← Number.toInt_toWord y, ← Number.toInt_or, ← Number.toInt_and]
  exact ⟨⟨_, Number.toInt?_ofWord _, rfl⟩, _, Number.toInt?_ofWord _, rfl⟩

end Evaluator

/-- `2 ^ 63` has no bit set among the lowest 32, and yet it counts as a word that has all of them
set. -/
theorem Session.large_operand_sets_bits :
    Number.integerPart? 9223372036854775808 = some (2 ^ 63) ∧ (2 ^ 63 : ℤ).bmod (2 ^ 32) = 0 ∧
      (Session.play 30 (Session.start ⟨[], []⟩ 0) [.source "print 9223372036854775808 | 0;"]).map
        (fun r => (r.1, r.2.machine.store.output)) = [(.ok, #["-1"])] := by
  refine ⟨?_, by decide, by decide +kernel⟩
  rw [Number.integerPart?_eq]
  decide +kernel

end ScriptEngine
