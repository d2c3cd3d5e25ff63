import ScriptEngine.Store

/-!
# The classes `Map`, `Error` and `Logger`

Maps keep their entries in the order of insertion. An error holds the message that `throw`
reports. A logger writes lines.
-/

namespace ScriptEngine.Builtin

open ScriptEngine

namespace Map

/-- A new map with the given contents. -/
def ofCell (cell : MapCell) : Action Datum := do
  let id ← Action.onHeap fun h => h.newMap cell
  pure (.map id)

/-- The map made from the arguments of the class: an empty one, or one with the entries of
another map. -/
def construct (args : List Value) : Action Datum := do
  match args.head? with
  | none => ofCell ⟨[]⟩
  | some .null => ofCell ⟨[]⟩
  | some (.datum (.map id)) => ofCell ((← Action.heap).map id)
  | some _ => throw .expectedMap

/-- The methods of maps. -/
def call (id : MapId) (method : String) (args : List Value) : Action Value := do
  match method with
  | "__getitem__" =>
    let key ← Action.orRefuse args[0]? .expectedKey
    return ((← Action.heap).mapGet? id key).getD .null
  | "__setitem__" =>
    let key ← Action.orRefuse args[0]? .expectedKey
    let value ← Action.orRefuse args[1]? .expectedValue
    Action.modifyHeap fun h => h.mapInsert id key value
    return .null
  | method => throw (.undefinedMethod method)

end Map

namespace Error

/-- A new error with a message. -/
def withMessage (message : Value) : Action Datum := do
  let id ← Action.onHeap fun h => h.newError ⟨message, none⟩
  pure (.error id)

/-- The error made from the arguments of the class. -/
def construct (args : List Value) : Action Datum := do
  withMessage (← Action.orRefuse args[0]? .expectedMessage)

/-- The methods of errors. -/
def call (id : ErrorId) (method : String) : Action Value := do
  match method with
  | "getMessage" => return ((← Action.heap).error id).message
  | method => throw (.undefinedMethod method)

end Error

namespace Logger

/-- The methods of loggers. -/
def call (method : String) (args : List Value) : Action Value := do
  match method with
  | "log" =>
    Action.print ((← Action.heap).display (args[0]?.getD .null))
    return .null
  | method => throw (.undefinedMethod method)

end Logger

end ScriptEngine.Builtin
