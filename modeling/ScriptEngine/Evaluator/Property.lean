import ScriptEngine.Machine

/-!
# Properties

Reading a property of a value: a field, else a method bound to the receiver. For an instance of a
user class the fields come first, then the methods of its class and superclasses, then the fields
of its backing instances.
-/

namespace ScriptEngine.Run

/-- Whether a value answers to a method, inherited ones included. -/
def hasMethod (h : Heap) (value : Value) (method : String) : Bool :=
  match value with
  | .object id => ((h.object id).cls.findMethod? method).isSome
  | .datum d => d.cls.hasMethod method
  | _ => false

/-- A method with `this` bound in a frame of its own around the one it was declared in. -/
def bindMethod (f : Function) (this : Value) : Run Function := do
  let frame ← newFrame f.closure [("this", this)]
  let id ← onHeap Heap.fresh
  pure { f with id := id, closure := frame }

/-- A field of one of the backing instances of an instance. -/
def nativeField (i : Instance) (name : Token) : Run Value := do
  let h ← heap
  match i.natives.findSome? fun n => Builtin.field? h n.2 name.lexeme with
  | some value => pure value
  | none => failAt name .undefinedProperty

/-- A property of an instance of a user class. -/
def objectProperty (id : ObjectId) (name : Token) : Run Value := do
  let i := (← heap).object id
  match i.field? name.lexeme with
  | some value => pure value
  | none =>
    match i.cls.findMethod? name.lexeme with
    | some (.user f) => return .function (← bindMethod f (.object id))
    | some (.builtin c) =>
      match i.native? c with
      | some native => do
        match ← action name (Builtin.bindMethod? native name.lexeme) with
        | some method => pure method
        | none => nativeField i name
      | none => nativeField i name
    | none => nativeField i name

/-- A property of a value. -/
def getProperty (object : Value) (name : Token) : Run Value := do
  match object with
  | .object id => objectProperty id name
  | .datum d =>
    match ← action name (Builtin.property? d name.lexeme) with
    | some value => pure value
    | none => failAt name .undefinedProperty
  | _ => failAt name .propertyOnNonInstance

end ScriptEngine.Run
