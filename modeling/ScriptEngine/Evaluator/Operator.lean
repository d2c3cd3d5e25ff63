import ScriptEngine.Evaluator.Call

/-!
# Operators

Every operator stands for a method. A binary operator calls the method of its left operand, else
that of its right operand; two nulls can only be compared. Indexing calls `__getitem__` and
`__setitem__`.
-/

namespace ScriptEngine

/-- The method of a binary operator. -/
def TokenKind.binaryMethod? : TokenKind → Option String
  | plus => some "__add__"
  | minus => some "__subtract__"
  | star => some "__multiply__"
  | slash => some "__divide__"
  | percent => some "__modulus__"
  | caret => some "__power__"
  | pipe => some "__pipe__"
  | ampersand => some "__ampersand__"
  | equalEqual => some "__equal__"
  | bangEqual => some "__notequal__"
  | less => some "__less__"
  | lessEqual => some "__lessequal__"
  | greater => some "__greater__"
  | greaterEqual => some "__greaterequal__"
  | _ => none

/-- The method of a unary operator. -/
def TokenKind.unaryMethod? : TokenKind → Option String
  | minus => some "__negate__"
  | bang => some "__not__"
  | _ => none

namespace Evaluator

open Run

/-- A binary operator on two nulls. -/
def nullOperation (operator : Token) : Run Value :=
  match operator.kind with
  | .equalEqual => pure (.boolean true)
  | .bangEqual => pure (.boolean false)
  | _ => failAt operator .invalidBinaryOnNulls

/-- Applies a binary operator. -/
def binaryOperation (ev : Evaluator) (left : Value) (operator : Token) (right : Value) :
    Run Value := do
  match operator.kind.binaryMethod? with
  | none => failAt operator .invalidBinary
  | some method => do
    if hasMethod (← heap) left method then ev.callMethod left method [right] operator
    else if hasMethod (← heap) right method then ev.callMethod right method [left] operator
    else if left.isNull && right.isNull then nullOperation operator
    else failAt operator .invalidBinary

/-- Applies a unary operator. -/
def unaryOperation (ev : Evaluator) (operator : Token) (operand : Value) : Run Value := do
  match operator.kind.unaryMethod? with
  | none => failAt operator .invalidUnary
  | some method => do
    if hasMethod (← heap) operand method then ev.callMethod operand method [] operator
    else failAt operator .invalidUnary

/-- Whether a value is an instance, of a user class or of a built-in one. -/
def isInstance : Value → Bool
  | .object _ => true
  | .datum _ => true
  | _ => false

/-- The item of a value at an index. -/
def indexGet (ev : Evaluator) (object index : Value) (bracket : Token) : Run Value := do
  if !isInstance object then failAt bracket .propertyOnNonInstance
  if !hasMethod (← heap) object "__getitem__" then failAt bracket .notReadableByIndex
  ev.callMethod object "__getitem__" [index] bracket

/-- Sets the item of a value at an index. -/
def indexSet (ev : Evaluator) (object index value : Value) (equals : Token) : Run Unit := do
  if !isInstance object then failAt equals .indexOnNonInstance
  if !hasMethod (← heap) object "__setitem__" then failAt equals .notWritableByIndex
  let _ ← ev.callMethod object "__setitem__" [index, value] equals

end Evaluator

end ScriptEngine
