import ScriptEngine.Decimal.Shortest
import ScriptEngine.Decimal.Reader
import ScriptEngine.Text.Blank

/-!
# Numbers of the language

Numbers are doubles. This module holds their two written forms, the conversion of text to a
number, and the operations that are exact on the integers behind a double: the remainder and the
conversion to a 32-bit word.
-/

namespace ScriptEngine.Number

open ScriptEngine.Decimal

/-- A finite number in full: shortest digits, no exponent, a minus also before zero. -/
def finiteText (b : Binary) : String :=
  let magnitude :=
    if b.mantissa == 0 then "0"
    else
      let (coefficient, power) := shortest b
      positional coefficient power
  if b.negative then "-" ++ magnitude else magnitude

/-- The technical form of a number: the sign of zero is kept and infinity is `inf`. -/
def technical (x : Float) : String :=
  match Binary.ofFloat? x with
  | some b => finiteText b
  | none => if x.isNaN then "NaN" else if x > 0 then "inf" else "-inf"

/-- The form in which programs print a number. A whole number below `10 ^ 21` is written with
all its digits, both zeros as `0`, and any other number with the shortest digits. -/
def display (x : Float) : String :=
  match Binary.ofFloat? x with
  | none => if x.isNaN then "NaN" else if x > 0 then "Infinity" else "-Infinity"
  | some b =>
    if b.isWhole && b.wholePart < Nat.pow 10 21 then
      if b.negative && b.wholePart != 0 then "-" ++ toString b.wholePart
      else toString b.wholePart
    else finiteText b

/-- The number that a text converts to. Blanks around it are ignored and an empty text is zero.
Apart from the word `Infinity`, the only letter a number may hold is the one before an
exponent. -/
def ofText? (s : String) : Option Float :=
  let text := Text.trim s
  if text.isEmpty then some 0
  else if text == "Infinity" || text == "+Infinity" then some (1 / 0)
  else if text == "-Infinity" then some (-(1 / 0))
  else if text.any fun c => c.isAlpha && c != 'e' && c != 'E' then none
  else (parse? text).filter fun x => !x.isNaN

/-- The remainder of a division that truncates toward zero: it has the sign of `x`. -/
def remainder (x y : Float) : Float :=
  match Binary.ofFloat? x, Binary.ofFloat? y with
  | some a, some b =>
    if b.mantissa == 0 then 0 / 0
    else
      let base := min a.exponent b.exponent
      let top := a.mantissa * Nat.pow 2 (a.exponent - base).toNat
      let bottom := b.mantissa * Nat.pow 2 (b.exponent - base).toNat
      Binary.toFloat { negative := a.negative, mantissa := top % bottom, exponent := base }
  | some _, none => if y.isNaN then 0 / 0 else x
  | none, _ => 0 / 0

/-- The whole part as a 64-bit word; numbers outside its range go to the nearest end. Numbers
that are not finite give zero. -/
def toInt64 (x : Float) : Int :=
  match Binary.ofFloat? x with
  | some b => max (-(Nat.pow 2 63)) (min (Nat.pow 2 63 - 1) b.truncate)
  | none => 0

/-- The 32-bit word that a number stands for in bitwise operations: the low half of its 64-bit
word. -/
def toWord (x : Float) : Int32 :=
  Int32.ofInt (toInt64 x)

/-- A 32-bit word as a number. -/
def ofWord (w : Int32) : Float :=
  Float.ofInt w.toInt

/-- The whole number that a double denotes exactly, if it denotes one. -/
def toInt? (x : Float) : Option Int :=
  (Binary.ofFloat? x).bind fun b => if b.isWhole then some b.truncate else none

/-- A number as a size: negative numbers and numbers that are none give zero, fractions are cut
off, and the largest size is `2 ^ 64 - 1`. -/
def toSize (x : Float) : Nat :=
  match Binary.ofFloat? x with
  | some b => if b.negative then 0 else min (Nat.pow 2 64 - 1) b.wholePart
  | none => if x > 0 then Nat.pow 2 64 - 1 else 0

end ScriptEngine.Number
