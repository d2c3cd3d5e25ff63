import ScriptEngine.Decimal.Binary

/-!
# The shortest decimal that reads back

Among the decimals that round to a given double, the ones with the fewest digits, and of those
the nearest; of two equally near ones the larger in magnitude. Everything is exact: a double is
the middle of an interval of fractions over one denominator, and for a growing number of digits
the two neighbours of the middle on the decimal grid are tested against the interval.
-/

namespace ScriptEngine.Decimal

/-- The reals that round to one double, as numerators over `den`. The ends belong to the
interval exactly when `closed`. -/
structure Rounding where
  low : Nat
  value : Nat
  high : Nat
  den : Nat
  closed : Bool

namespace Rounding

/-- The interval of a positive double. A tie between two doubles goes to the even mantissa. The
gap below a power of two is half the gap above it, unless the exponent is the least one. -/
def ofBinary (b : Binary) : Rounding :=
  let up := Nat.pow 2 (b.exponent - 2).toNat
  let gap := if b.mantissa == Nat.pow 2 52 && b.exponent > -1074 then 1 else 2
  { low := (4 * b.mantissa - gap) * up
    value := 4 * b.mantissa * up
    high := (4 * b.mantissa + 2) * up
    den := Nat.pow 2 (2 - b.exponent).toNat
    closed := b.mantissa % 2 == 0 }

/-- The multiple of `10 ^ power` in the interval that is nearest to the value, as its factor. -/
def onGrid? (r : Rounding) (power : Int) : Option Nat :=
  let scale := Nat.pow 10 (-power).toNat
  let unit := r.den * Nat.pow 10 power.toNat
  let inside := fun x =>
    if r.closed then r.low * scale ≤ x && x ≤ r.high * scale
    else r.low * scale < x && x < r.high * scale
  let below := r.value * scale / unit
  match inside (below * unit), inside ((below + 1) * unit) with
  | true, true => some (if 2 * (r.value * scale) < (2 * below + 1) * unit then below else below + 1)
  | true, false => some below
  | false, true => some (below + 1)
  | false, false => none

/-- The least `k` with `value < 10 ^ k`, looked for from `start` on. -/
def magnitudeFrom (r : Rounding) (start : Int) : Nat → Int
  | 0 => start
  | tries + 1 =>
    if r.value * Nat.pow 10 (-start).toNat < r.den * Nat.pow 10 start.toNat then start
    else r.magnitudeFrom (start + 1) tries

end Rounding

/-- A coefficient without trailing zeros, and the power of ten it is multiplied by. -/
def dropZeros (coefficient : Nat) (power : Int) : Nat × Int :=
  if coefficient ≠ 0 ∧ coefficient % 10 = 0 then dropZeros (coefficient / 10) (power + 1)
  else (coefficient, power)
termination_by coefficient
decreasing_by omega

/-- The shortest decimal of a positive double as a coefficient and a power of ten. -/
def shortest (b : Binary) : Nat × Int :=
  let r := Rounding.ofBinary b
  let start := Int.fdiv ((b.mantissa.log2 + b.exponent) * 30103) 100000
  let magnitude := r.magnitudeFrom start 3
  let found := (List.range 17).findSome? fun n =>
    let power := magnitude - (n + 1 : Nat)
    (r.onGrid? power).map fun c => (c, power)
  match found with
  | some (c, power) => dropZeros c power
  | none => (r.value / r.den, 0)

/-- A decimal written out in full, without an exponent. -/
def positional (coefficient : Nat) (power : Int) : String :=
  let digits := Nat.toDigits 10 coefficient
  if power ≥ 0 then String.ofList (digits ++ List.replicate power.toNat '0')
  else
    let places := (-power).toNat
    if digits.length > places then
      let whole := digits.length - places
      String.ofList (digits.take whole ++ '.' :: digits.drop whole)
    else
      String.ofList ('0' :: '.' :: List.replicate (places - digits.length) '0' ++ digits)

end ScriptEngine.Decimal
