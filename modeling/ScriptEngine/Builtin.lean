import ScriptEngine.Builtin.Number
import ScriptEngine.Builtin.Text
import ScriptEngine.Builtin.Array
import ScriptEngine.Builtin.Map

/-!
# Built-in instances at work

Making instances of built-in classes, calling their methods, reading their properties, and
calling native functions.
-/

namespace ScriptEngine.Builtin

open ScriptEngine

/-- The instance made by calling a class. -/
def construct (c : BuiltinClass) (args : List Value) : Action Datum :=
  match c with
  | .number => Number.construct args
  | .string => Text.construct args
  | .boolean => Boolean.construct args
  | .array => Array.construct args
  | .map => Map.construct args
  | .error => Error.construct args
  | .logger => pure .logger

/-- The instance that backs a new instance of a subclass until its initializer is called. -/
def defaultInstance (c : BuiltinClass) : Action Datum :=
  match c with
  | .number => pure (.number 0)
  | .string => pure (.string "")
  | .boolean => pure (.boolean false)
  | .array => Array.ofItems #[]
  | .map => Map.ofCell ⟨[]⟩
  | .error => Error.withMessage .null
  | .logger => pure .logger

/-- Whether a built-in instance equals the first argument. Without one it does not. -/
def equalsFirst (receiver : Datum) (args : List Value) : Action Bool := do
  let h ← Action.heap
  pure (args[0]?.any fun other => h.equals (.datum receiver) other)

/-- The methods that are particular to the class of the receiver. -/
def callOwn (receiver : Datum) (method : String) (args : List Value) : Action Value :=
  match receiver with
  | .number x => Number.call x method args
  | .string s => Text.call s method args
  | .boolean b => Boolean.call b method
  | .array id => Array.call id method args
  | .map id => Map.call id method args
  | .error id => Error.call id method
  | .logger => Logger.call method args

/-- Calls a method of a built-in instance. -/
def callMethod (receiver : Datum) (method : String) (args : List Value) : Action Value := do
  if !receiver.cls.hasMethod method then throw (.undefinedMethod method)
  match method with
  | "init" => return .datum (← construct receiver.cls args)
  | "__equal__" => return .boolean (← equalsFirst receiver args)
  | "__notequal__" => return .boolean (!(← equalsFirst receiver args))
  | "clone" => return .datum (← Action.onHeap fun h => h.clone receiver)
  | "toString" => return .string ((← Action.heap).display (.datum receiver))
  | method => callOwn receiver method args

/-- A method of a built-in instance as a function of its own. -/
def bindMethod? (receiver : Datum) (method : String) : Action (Option Value) := do
  match receiver.cls.methodArity? method with
  | none => pure none
  | some arity => do
    let id ← Action.onHeap Heap.fresh
    let name := receiver.cls.name ++ "." ++ method
    pure (some (.native ⟨id, name, arity, .method receiver method⟩))

/-- A field of a built-in instance: the message of an error, or the instance itself. -/
def field? (h : Heap) (receiver : Datum) (name : String) : Option Value :=
  match receiver with
  | .logger => none
  | .error id =>
    if name = "message" then some (h.error id).message
    else if name = "value" then some (.datum receiver)
    else none
  | _ => if name = "value" then some (.datum receiver) else none

/-- A property of a built-in instance: a field, else a method. -/
def property? (receiver : Datum) (name : String) : Action (Option Value) := do
  match field? (← Action.heap) receiver name with
  | some value => pure (some value)
  | none => bindMethod? receiver name

/-- The time in the unit that the argument names. -/
def clock (args : List Value) : Action Value := do
  let unit ←
    match args.head? with
    | none => pure "milli"
    | some .null => pure "milli"
    | some value => Action.orRefuse value.string? .expectedString
  let nanos ← Action.readClock
  let time ←
    match unit with
    | "hour" => pure (nanos / 1000000000 / 3600)
    | "second" => pure (nanos / 1000000000)
    | "milli" => pure (nanos / 1000000)
    | "micro" => pure (nanos / 1000)
    | "nano" => pure nanos
    | _ => throw .invalidClockUnit
  return .number (Float.ofNat time)

/-- Calls a native function. -/
def callNative (action : NativeAction) (args : List Value) : Action Value :=
  match action with
  | .clock => clock args
  | .method receiver name => callMethod receiver name args
  | .emptyInit => pure .null
  | .superInit object c => do
    let native ← construct c args
    Action.modifyHeap fun h => h.modifyObject object fun i =>
      (i.setNative c native).setStatus c.name .initialized
    return .null

/-- A new instance of a user class, with a default backing instance for every built-in class
above it. -/
def newInstance (c : Class) : Action ObjectId := do
  let natives ← c.builtinAncestors.mapM fun b => return (b, ← defaultInstance b)
  Action.onHeap fun h => h.newObject (Instance.create c natives)

end ScriptEngine.Builtin
