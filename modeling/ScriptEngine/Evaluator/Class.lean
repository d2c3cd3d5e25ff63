import ScriptEngine.Evaluator.Call

/-!
# Class declarations and superclass methods

The methods of a class with superclasses are made in a frame that binds each superclass under a
name of its own. A superclass method is found through that frame and bound to the `this` of the
frame one step inside it.
-/

namespace ScriptEngine.Evaluator

open Run

/-- The superclass that a reference in the head of a class names. -/
def evaluateSuperclass (ref : Reference) : Run Superclass := do
  match ← deref (← lookUp ref.id ref.name) with
  | .cls c => pure (.user c)
  | .builtinClass b => pure (.builtin b)
  | _ => failAt ref.name .superclassNotClass

/-- The superclasses in the head of a class. -/
def evaluateSuperclasses : List Reference → Run (List Superclass)
  | [] => pure []
  | ref :: refs => do
    let first ← evaluateSuperclass ref
    let rest ← evaluateSuperclasses refs
    pure (first :: rest)

/-- The bindings of the frame around the methods of a class with superclasses. -/
def superBindings (refs : List Reference) (superclasses : List Superclass) :
    List (String × Value) :=
  (superclasses.head?.map fun s => ("super", s.toValue)).toList ++
    List.zipWith (fun ref s => (superBinding ref.name.lexeme, s.toValue)) refs superclasses

/-- The frame in which the methods of a class are made. -/
def methodFrame (refs : List Reference) (superclasses : List Superclass) : Run FrameId := do
  if superclasses.isEmpty then pure (← get).current
  else childFrame (superBindings refs superclasses)

/-- The methods of a class. Of two methods with one name the later counts, so the list has the
last declaration first. -/
def makeMethods (className : String) (closure : FrameId) (home : ModuleId) :
    List FunctionDecl → List (String × Function) → Run (List (String × Function))
  | [], made => pure made
  | decl :: decls, made => do
    let id ← onHeap Heap.fresh
    let name := decl.name.lexeme
    let f : Function := ⟨id, decl, closure, home, name == "init", some className⟩
    makeMethods className closure home decls ((name, f) :: made)

/-- Declares a class. Its name is bound before its methods are made. -/
def declareClass (name : Token) (refs : List Reference) (decls : List FunctionDecl) :
    Run Unit := do
  let superclasses ← evaluateSuperclasses refs
  define name .null
  let closure ← methodFrame refs superclasses
  let home ← activeModule
  let methods ← makeMethods name.lexeme closure home decls []
  let id ← onHeap Heap.fresh
  let frame := (← get).current
  write (·.target frame name) name (.cls (.mk id name.lexeme superclasses methods))

/-- A native function that stands for the initializer of a superclass. -/
def superInit (className : String) (arity : Nat) (act : NativeAction) : Run Value := do
  let id ← onHeap Heap.fresh
  pure (.native ⟨id, className ++ ".init", arity, act⟩)

/-- The method that was found for a superclass, bound to the instance. -/
def bindSuperMethod (id : ObjectId) (method : Token) : Option Method → Run Value
  | some (.user f) => do return .function (← bindMethod f (.object id))
  | some (.builtin b) => do
    if method.lexeme = "init" then
      setStatus id b.name .initializing
      superInit b.name b.arity (.superInit id b)
    else
      match ((← heap).object id).native? b with
      | none => failAt method .undefinedProperty
      | some native => do
        match ← action method (Builtin.bindMethod? native method.lexeme) with
        | some f => pure f
        | none => failAt method .undefinedProperty
  | none => failAt method .undefinedProperty

/-- A method of a superclass of the program. Asking for its initializer marks its slot: as being
initialized if the class declares one itself, and as initialized if it does not. -/
def userSuperMethod (id : ObjectId) (parent : Class) (method : Token) : Run Value := do
  let found := parent.findMethod? method.lexeme
  if method.lexeme = "init" then
    if parent.ownInit?.isSome then do
      setStatus id parent.name .initializing
      bindSuperMethod id method found
    else do
      setStatus id parent.name .initialized
      if found.isNone then superInit parent.name 0 .emptyInit
      else bindSuperMethod id method found
  else bindSuperMethod id method found

/-- The method that a superclass access denotes. -/
def superMethod (id : ExprId) (keyword className method : Token) : Run Value := do
  match ← distance? id with
  | none => failAt keyword .unresolvedSuper
  | some distance => do
    let m ← get
    let frame ← ofExcept (m.frames.ancestor m.current distance)
    match m.frames.local? frame (superBinding className.lexeme) with
    | none => failAt className .undefinedSuperclass
    | some superclass =>
      match distance with
      | 0 => fail (.internal .noThisFrame)
      | inner + 1 => do
        match ← ofExcept (m.frames.getAt m.current inner "this") with
        | .object object =>
          match superclass with
          | .cls parent => userSuperMethod object parent method
          | .builtinClass b =>
            bindSuperMethod object method
              (if b.hasMethod method.lexeme then some (.builtin b) else none)
          | _ => fail (.internal .superNotClass)
        | _ => fail (.internal .thisNotInstance)

end ScriptEngine.Evaluator
