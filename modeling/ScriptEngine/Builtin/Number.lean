import ScriptEngine.Store

/-!
# The class `Number`

Arithmetic, comparison and bitwise operators. Operands must be numbers; a number is made from a
number, a text, a truth value or `null`.
-/

namespace ScriptEngine.Builtin.Number

open ScriptEngine

/-- The number made from the arguments of the class. -/
def construct (args : List Value) : Action Datum :=
  match args.head? with
  | none => throw .expectedNumber
  | some .null => pure (.number 0)
  | some (.datum (.number x)) => pure (.number x)
  | some (.datum (.boolean b)) => pure (.number (if b then 1 else 0))
  | some (.datum (.string s)) =>
    return .number (← Action.orRefuse (Number.ofText? s) .expectedScalar)
  | some _ => throw .expectedScalar

/-- The right operand. -/
def operand (args : List Value) : Action Float :=
  Action.orRefuse (args[0]?.bind Value.number?) .expectedNumber

/-- The right operand of a division, which is not zero. -/
def divisor (args : List Value) : Action Float := do
  let y ← operand args
  if y == 0 then throw .divisionByZero
  pure y

/-- The methods of numbers. -/
def call (x : Float) (method : String) (args : List Value) : Action Value :=
  match method with
  | "__negate__" => pure (.number (-x))
  | "__power__" => return .number (x ^ (← operand args))
  | "__multiply__" => return .number (x * (← operand args))
  | "__add__" => return .number (x + (← operand args))
  | "__subtract__" => return .number (x - (← operand args))
  | "__divide__" => return .number (x / (← divisor args))
  | "__modulus__" => return .number (Number.remainder x (← divisor args))
  | "__pipe__" =>
    return .number (Number.ofWord (Number.toWord x ||| Number.toWord (← operand args)))
  | "__ampersand__" =>
    return .number (Number.ofWord (Number.toWord x &&& Number.toWord (← operand args)))
  | "__less__" => return .boolean (x < (← operand args))
  | "__lessequal__" => return .boolean (x <= (← operand args))
  | "__greater__" => return .boolean (x > (← operand args))
  | "__greaterequal__" => return .boolean (x >= (← operand args))
  | method => throw (.undefinedMethod method)

end ScriptEngine.Builtin.Number
