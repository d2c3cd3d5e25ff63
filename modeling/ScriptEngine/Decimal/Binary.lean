/-!
# Finite doubles as integers times powers of two

A finite double is `± mantissa · 2 ^ exponent` with a mantissa below `2 ^ 53` and an exponent of
at least `-1074`. Reading the two integers off the bits makes exact arithmetic possible: whole
parts, remainders and decimal digits are computed on them without rounding.
-/

namespace ScriptEngine.Decimal

/-- The number `± mantissa · 2 ^ exponent`. -/
structure Binary where
  negative : Bool
  mantissa : Nat
  exponent : Int
deriving DecidableEq

namespace Binary

/-- The sign, mantissa and exponent of a finite double, and nothing for the others. -/
def ofFloat? (x : Float) : Option Binary :=
  let bits : Nat := x.toBits.toNat
  let field : Nat := bits / Nat.pow 2 52 % Nat.pow 2 11
  let fraction : Nat := bits % Nat.pow 2 52
  if field == Nat.pow 2 11 - 1 then none
  else some {
    negative := bits / Nat.pow 2 63 == 1
    mantissa := if field == 0 then fraction else Nat.pow 2 52 + fraction
    exponent := if field == 0 then -1074 else (field : Int) - 1075 }

/-- The double with this sign, mantissa and exponent. It is exact when the mantissa is below
`2 ^ 53` and the exponent at least `-1074`: the mantissa is moved up until its top bit stands
where a normal double has it, or the exponent can sink no further. -/
def toFloat (b : Binary) : Float :=
  let room := min (52 - b.mantissa.log2) (b.exponent + 1074).toNat
  let mantissa := b.mantissa * Nat.pow 2 room
  let field := if mantissa < Nat.pow 2 52 then 0 else (b.exponent - room + 1075).toNat
  let sign := if b.negative then Nat.pow 2 63 else 0
  Float.ofBits (sign + field * Nat.pow 2 52 + mantissa % Nat.pow 2 52).toUInt64

/-- The magnitude without its fraction. -/
def wholePart (b : Binary) : Nat :=
  b.mantissa * Nat.pow 2 b.exponent.toNat / Nat.pow 2 (-b.exponent).toNat

/-- The number without its fraction. -/
def truncate (b : Binary) : Int :=
  if b.negative then -(b.wholePart : Int) else b.wholePart

/-- Whether the number has no fraction. -/
def isWhole (b : Binary) : Bool :=
  b.mantissa % Nat.pow 2 (-b.exponent).toNat == 0

end Binary

end ScriptEngine.Decimal
