/-!
# Reading decimals

The number that a decimal text denotes, rounded to the nearest double. A text is an optional
sign, digits with at most one point among or around them, and an optional exponent; or a word
for infinity or for no number, in any case.
-/

namespace ScriptEngine.Decimal

/-- The number that a list of decimal digits spells. -/
def digitsValue (ds : List Char) : Nat :=
  ds.foldl (fun n d => n * 10 + (d.toNat - '0'.toNat)) 0

/-- `coefficient · 10 ^ power` rounded to the nearest double, ties to even. A number far outside
the range of doubles is decided by its magnitude alone. -/
def round (coefficient : Nat) (power : Int) : Float :=
  let magnitude := ((Nat.toDigits 10 coefficient).length : Int) + power
  if coefficient == 0 || magnitude < -400 then 0
  else if magnitude > 400 then 1 / 0
  else Float.ofScientific coefficient (power < 0) power.natAbs

/-- An optional sign in front of a text: whether it is a minus, and what follows. -/
def takeSign : List Char → Bool × List Char
  | '-' :: rest => (true, rest)
  | '+' :: rest => (false, rest)
  | rest => (false, rest)

/-- The value of an exponent part, which is empty or `e` and a signed number. -/
def exponent? : List Char → Option Int
  | [] => some 0
  | e :: rest =>
    if e == 'e' || e == 'E' then
      let (negative, digits) := takeSign rest
      if digits.isEmpty || !digits.all Char.isDigit then none
      else if negative then some (-(digitsValue digits : Int))
      else some (digitsValue digits)
    else none

/-- The digits after the point, if there is a point, and what follows. -/
def takeFraction : List Char → List Char × List Char
  | '.' :: rest => (rest.takeWhile Char.isDigit, rest.dropWhile Char.isDigit)
  | rest => ([], rest)

/-- A number without a sign. -/
def unsigned? (s : List Char) : Option Float :=
  let whole := s.takeWhile Char.isDigit
  let (fraction, rest) := takeFraction (s.dropWhile Char.isDigit)
  if whole.isEmpty && fraction.isEmpty then none
  else (exponent? rest).map fun e =>
    round (digitsValue (whole ++ fraction)) (e - fraction.length)

/-- The double that a text denotes, if it denotes one. -/
def parse? (s : String) : Option Float :=
  let (negative, body) := takeSign s.toList
  let word := String.ofList (body.map Char.toLower)
  let magnitude :=
    if word == "inf" || word == "infinity" then some (1 / 0)
    else if word == "nan" then some (0 / 0)
    else unsigned? body
  magnitude.map fun x => if negative then -x else x

end ScriptEngine.Decimal
