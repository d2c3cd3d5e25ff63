import ScriptEngine.Token

/-!
# Runtime errors

What can go wrong while a program runs, and how it is worded. Most errors have a cause and a
token at which they are reported. An internal error means that the distances of a program and
its frames disagree; it has no token.
-/

namespace ScriptEngine

/-- Why a built-in function or class refuses its arguments. -/
inductive BuiltinFault where
  | expectedNumber
  | expectedScalar
  | divisionByZero
  | expectedBoolean
  | expectedString
  | expectedMessage
  | expectedKey
  | expectedValue
  | expectedMap
  | expectedArray
  | expectedIndex
  | expectedNumericArgument
  | expectedSize
  | arrayFull
  | arrayEmpty
  | indexOutOfRange
  | valueNotFound
  | invalidClockUnit
  | undefinedMethod (name : String)
deriving DecidableEq

/-- The text of a built-in's refusal. -/
def BuiltinFault.message : BuiltinFault → String
  | expectedNumber => "Expected number."
  | expectedScalar => "Expected a number, string, boolean or null."
  | divisionByZero => "Division by zero."
  | expectedBoolean => "Expected boolean."
  | expectedString => "Expected string."
  | expectedMessage => "Expected a error message!"
  | expectedKey => "Expected a key."
  | expectedValue => "Expected a value."
  | expectedMap => "Expected a Map."
  | expectedArray => "Expected an Array."
  | expectedIndex => "Expected an index."
  | expectedNumericArgument => "Expected an number."
  | expectedSize => "Expected a size."
  | arrayFull => "Array is full."
  | arrayEmpty => "Array is empty."
  | indexOutOfRange => "Index out of range."
  | valueNotFound => "Value not found."
  | invalidClockUnit => "Invalid clock operation."
  | undefinedMethod name => "Undefined method '" ++ name ++ "'."

/-- Why a program stops at a token. Causes that speak of a name mean the name of the token
unless they carry one. -/
inductive Cause where
  | undefinedVariable
  | duplicateBinding
  | undefinedProperty
  | undefinedMethod
  | notCallable
  | wrongArity (expected got : Nat)
  | invalidThrow
  | moduleNotFound (path : String)
  | importFailed
  | exportNotFound
  | circularImport
  | fieldOnNonInstance
  | propertyOnNonInstance
  | indexOnNonInstance
  | notReadableByIndex
  | notWritableByIndex
  | invalidBinary
  | invalidBinaryOnNulls
  | invalidUnary
  | superclassNotClass
  | unresolvedSuper
  | undefinedSuperclass
  | uninitializedSuperclass (name : String)
  | builtin (fault : BuiltinFault)
deriving DecidableEq

/-- The text of a cause at a token whose source text is `lexeme`. -/
def Cause.message (lexeme : String) : Cause → String
  | undefinedVariable => "Undefined variable '" ++ lexeme ++ "'."
  | duplicateBinding => "Variable already exists with the name '" ++ lexeme ++ "'."
  | undefinedProperty => "Undefined property '" ++ lexeme ++ "'."
  | undefinedMethod => "Undefined method '" ++ lexeme ++ "'."
  | notCallable => "Can only call functions and classes."
  | wrongArity expected got =>
    "Expected at most " ++ toString expected ++ " arguments but got " ++ toString got ++ "."
  | invalidThrow =>
    "Can only throw 'Error' instance, or instances that inherit the 'Error' class."
  | moduleNotFound path => "Unable to find file '" ++ path ++ "'"
  | importFailed => "Unable to resolve import"
  | exportNotFound => "Unable to find exported item '" ++ lexeme ++ "'"
  | circularImport => "Circular import of '" ++ lexeme ++ "'."
  | fieldOnNonInstance => "Only instances have fields."
  | propertyOnNonInstance => "Only instances have properties."
  | indexOnNonInstance => "Only able to set indexed values on instances"
  | notReadableByIndex => "Invalid get operation."
  | notWritableByIndex => "Invalid set operation."
  | invalidBinary => "Invalid binary operator."
  | invalidBinaryOnNulls => "Invalid binary operator on nulls."
  | invalidUnary => "Invalid unary operation."
  | superclassNotClass => "Superclass must be a class."
  | unresolvedSuper => "Undefined superclass 'super'."
  | undefinedSuperclass => "Undefined superclass '" ++ lexeme ++ "'."
  | uninitializedSuperclass name => "Superclass '" ++ name ++ "' not initialized"
  | builtin fault => fault.message

/-- A disagreement between the distances of a program and its frames. -/
inductive InternalFault where
  | noEnclosingFrame (distance : Nat)
  | unboundLocal (name : String) (distance : Nat)
  | noActiveModule
  | noThisFrame
  | thisNotInstance
  | superNotClass
deriving DecidableEq

/-- The text of an internal error. -/
def InternalFault.message : InternalFault → String
  | noEnclosingFrame distance =>
    "Unable to find enclosing environment at distance " ++ toString distance ++ "."
  | unboundLocal name distance =>
    "Undefined local variable '" ++ name ++ "' at distance " ++ toString distance ++ "."
  | noActiveModule => "No module is being executed."
  | noThisFrame => "No 'this' frame below the superclass frame."
  | thisNotInstance => "'this' is not an instance."
  | superNotClass => "Superclass binding is not a class."

/-- A runtime error. -/
inductive RuntimeError where
  | located (cause : Cause) (token : Token)
  | internal (fault : InternalFault)

namespace RuntimeError

/-- The text of a runtime error. -/
def message : RuntimeError → String
  | located cause token => cause.message token.lexeme
  | internal fault => fault.message

/-- The token at which a runtime error is reported. -/
def token? : RuntimeError → Option Token
  | located _ token => some token
  | internal _ => none

end RuntimeError

end ScriptEngine
