import ScriptEngine.BuiltinClass
import ScriptEngine.Program

/-!
# Values

What programs compute with. Numbers, texts and truth values are themselves; arrays, maps, errors
and instances of user classes are references into the heap, so that two names can share one.
Functions and classes never change, so they are held directly, each with an identity number by
which two of them are told apart. An imported value is a reference to a name of another module.
-/

namespace ScriptEngine

/-- The place of a frame in the list of frames. -/
abbrev FrameId := Nat
/-- The place of a module in the module tree. -/
abbrev ModuleId := Nat
/-- The place of an array in the heap. -/
abbrev ArrayId := Nat
/-- The place of a map in the heap. -/
abbrev MapId := Nat
/-- The place of an error in the heap. -/
abbrev ErrorId := Nat
/-- The place of an instance of a user class in the heap. -/
abbrev ObjectId := Nat
/-- The place of an import reference in the heap. -/
abbrev ImportId := Nat
/-- The number that tells two functions or classes apart. -/
abbrev Identity := Nat

/-- An instance of a built-in class. -/
inductive Datum where
  | number (value : Float)
  | string (text : String)
  | boolean (value : Bool)
  | array (id : ArrayId)
  | map (id : MapId)
  | error (id : ErrorId)
  | logger

instance : Inhabited Datum := ⟨.logger⟩

/-- The class of a built-in instance. -/
def Datum.cls : Datum → BuiltinClass
  | number _ => .number
  | string _ => .string
  | boolean _ => .boolean
  | array _ => .array
  | map _ => .map
  | error _ => .error
  | logger => .logger

/-- What a native function does. -/
inductive NativeAction where
  /-- Reads the clock. -/
  | clock
  /-- Calls a method of a built-in instance. -/
  | method (receiver : Datum) (name : String)
  /-- Initializes the part of an instance that stands for a built-in superclass. -/
  | superInit (object : ObjectId) (cls : BuiltinClass)
  /-- Stands for the initializer of a superclass that has none. -/
  | emptyInit

/-- A function provided by the engine. -/
structure NativeFunction where
  id : Identity
  name : String
  arity : Nat
  action : NativeAction

/-- A function of the program with the frame it was made in. A method knows the class that
declares it; `home` is the module whose distances its body uses. -/
structure Function where
  id : Identity
  decl : FunctionDecl
  closure : FrameId
  home : ModuleId
  isInitializer : Bool
  owner? : Option String

namespace Function

/-- The name in the declaration. -/
def name (f : Function) : String := f.decl.name.lexeme

/-- The number of parameters. -/
def arity (f : Function) : Nat := f.decl.params.length

/-- How a function is shown. -/
def display (f : Function) : String :=
  if f.decl.anonymous then "<anonymous function>" else "<" ++ f.name ++ " function>"

end Function

mutual

/-- A class of the program. Where two methods have one name, the earlier in the list counts. -/
inductive Class where
  | mk (id : Identity) (name : String) (superclasses : List Superclass)
      (methods : List (String × Function))

/-- A direct superclass: a class of the program or a built-in one. -/
inductive Superclass where
  | user (cls : Class)
  | builtin (cls : BuiltinClass)

end

/-- Values. -/
inductive Value where
  | null
  | cls (c : Class)
  | object (id : ObjectId)
  | function (f : Function)
  | native (f : NativeFunction)
  | builtinClass (c : BuiltinClass)
  | datum (d : Datum)
  | imported (id : ImportId)

instance : Inhabited Value := ⟨.null⟩

namespace Value

/-- A number. -/
abbrev number (x : Float) : Value := .datum (.number x)

/-- A text. -/
abbrev string (s : String) : Value := .datum (.string s)

/-- A truth value. -/
abbrev boolean (b : Bool) : Value := .datum (.boolean b)

/-- The number that a value is. -/
def number? : Value → Option Float
  | datum (.number x) => some x
  | _ => none

/-- The text that a value is. -/
def string? : Value → Option String
  | datum (.string s) => some s
  | _ => none

/-- Whether a value is `null`. -/
def isNull : Value → Bool
  | null => true
  | _ => false

/-- Everything but `null` and `false` counts as true. -/
def isTruthy : Value → Bool
  | null => false
  | datum (.boolean b) => b
  | _ => true

/-- Whether a value is an import reference. -/
def isImported : Value → Bool
  | imported _ => true
  | _ => false

end Value

end ScriptEngine
