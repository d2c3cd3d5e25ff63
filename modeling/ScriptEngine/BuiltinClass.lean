/-!
# Built-in classes

The classes every program starts with, and for each the methods its instances answer to, with
the greatest number of arguments a method takes.
-/

namespace ScriptEngine

/-- The built-in classes. -/
inductive BuiltinClass where
  | string | number | boolean | array | map | logger | error
deriving DecidableEq, Inhabited

namespace BuiltinClass

/-- All built-in classes. -/
def all : List BuiltinClass := [.string, .number, .boolean, .array, .map, .logger, .error]

/-- The name under which programs know a class. -/
def name : BuiltinClass → String
  | string => "String"
  | number => "Number"
  | boolean => "Boolean"
  | array => "Array"
  | map => "Map"
  | logger => "Logger"
  | error => "Error"

/-- The class with a given name. -/
def ofName? (name : String) : Option BuiltinClass :=
  all.find? (·.name == name)

/-- Methods that every class has besides its initializer. -/
def commonMethods : List (String × Nat) :=
  [("__equal__", 1), ("__notequal__", 1), ("clone", 0), ("toString", 0)]

/-- The methods of a class apart from the common ones, its initializer first. -/
def ownMethods : BuiltinClass → List (String × Nat)
  | string =>
    [("init", 1), ("length", 0), ("toUpperCase", 0), ("toLowerCase", 0), ("concat", 1),
      ("replace", 2), ("__add__", 1)]
  | number =>
    [("init", 1), ("__power__", 1), ("__modulus__", 1), ("__multiply__", 1), ("__divide__", 1),
      ("__add__", 1), ("__subtract__", 1), ("__pipe__", 1), ("__ampersand__", 1),
      ("__less__", 1), ("__lessequal__", 1), ("__greater__", 1), ("__greaterequal__", 1),
      ("__negate__", 0)]
  | boolean => [("init", 1), ("__not__", 0)]
  | array =>
    [("init", 1), ("setMaxSize", 1), ("enqueue", 1), ("dequeue", 0), ("peek", 0), ("front", 0),
      ("push", 1), ("pop", 0), ("top", 0), ("isFull", 0), ("isEmpty", 0), ("size", 0), ("add", 1),
      ("get", 1), ("set", 2), ("insertAt", 2), ("remove", 1), ("removeAt", 1), ("contains", 1),
      ("indexOf", 1), ("clear", 0), ("length", 0), ("__getitem__", 1), ("__setitem__", 2)]
  | map => [("init", 1), ("__getitem__", 1), ("__setitem__", 2)]
  | logger => [("init", 0), ("log", 1)]
  | error => [("init", 1), ("getMessage", 0)]

/-- The greatest number of arguments of a method, if the class has it. -/
def methodArity? (c : BuiltinClass) (method : String) : Option Nat :=
  (c.ownMethods ++ commonMethods).lookup method

/-- Whether instances of the class answer to a method. -/
def hasMethod (c : BuiltinClass) (method : String) : Bool :=
  (c.methodArity? method).isSome

/-- The greatest number of arguments when the class itself is called. -/
def arity (c : BuiltinClass) : Nat :=
  (c.methodArity? "init").getD 0

end BuiltinClass

end ScriptEngine
