import ScriptEngine.Evaluator.Property

/-!
# Calls

Calling functions, classes and methods. A function runs in a new frame that holds its parameters,
enclosed by the frame it was made in, and as code of the module it was made in. Missing arguments
are `null`.

Calling a class makes an instance and initializes it. A class with an initializer of its own must
see to it that every superclass is initialized; otherwise the superclasses are initialized one by
one, the last first.
-/

namespace ScriptEngine

/-- How a statement ends if nothing halts it. -/
inductive Flow where
  | normal
  | returned (value : Value)

/-- The evaluation of parts of a program. -/
structure Evaluator where
  evaluate : Expr → Run Value
  execute : Stmt → Run Flow

namespace Evaluator

open Run

/-- Runs statements in order until one returns. -/
def runAll (ev : Evaluator) : List Stmt → Run Flow
  | [] => pure .normal
  | s :: rest => do
    match ← ev.execute s with
    | .normal => ev.runAll rest
    | .returned value => pure (.returned value)

/-- Runs statements in a frame. -/
def runIn (ev : Evaluator) (frame : FrameId) (body : List Stmt) : Run Flow :=
  inFrame frame (ev.runAll body)

/-- Runs statements in a new frame enclosed by the current one. -/
def runBlock (ev : Evaluator) (body : List Stmt) : Run Flow := do
  ev.runIn (← childFrame []) body

/-- Refuses more arguments than a callee takes. -/
def checkArity (arity got : Nat) (paren : Token) : Run Unit := do
  if got > arity then failAt paren (.wrongArity arity got)

/-- The parameters of a function with the arguments for them. -/
def bindParams : List Token → List Value → List (String × Value)
  | [], _ => []
  | p :: ps, [] => (p.lexeme, .null) :: bindParams ps []
  | p :: ps, a :: as => (p.lexeme, a) :: bindParams ps as

/-- The result of a call of an initializer: the instance, which now counts as initialized for
the class that declares the initializer. -/
def finishInit (f : Function) (result : Value) : Run Value := do
  match (← get).frames.local? f.closure "this" with
  | none => pure result
  | some this => do
    match this, f.owner? with
    | .object id, some owner =>
      modifyHeap fun h => h.modifyObject id fun i => i.setStatus owner .initialized
    | _, _ => pure ()
    pure this

/-- Calls a function of the program. -/
def callFunction (ev : Evaluator) (f : Function) (args : List Value) : Run Value := do
  let frame ← newFrame f.closure (bindParams f.decl.params args)
  let flow ← inModule f.home (ev.runIn frame f.decl.body)
  let result :=
    match flow with
    | .returned value => value
    | .normal => .null
  if f.isInitializer then finishInit f result else pure result

/-- Records the progress of a class in an instance. -/
def setStatus (id : ObjectId) (className : String) (status : InitStatus) : Run Unit :=
  modifyHeap fun h => h.modifyObject id fun i => i.setStatus className status

/-- Initializes the part of an instance that stands for a superclass of a class without an
initializer of its own. A built-in superclass keeps its default backing instance. -/
def initSuperclass (ev : Evaluator) (id : ObjectId) (args : List Value) (paren : Token)
    (s : Superclass) : Run Unit := do
  if !s.hasOwnInit then setStatus id s.name .initialized
  else
    setStatus id s.name .initializing
    match s with
    | .builtin b => setStatus id b.name .initialized
    | .user parent =>
      match parent.ownInit? with
      | none => pure ()
      | some init => do
        let bound ← bindMethod init (.object id)
        checkArity bound.arity args.length paren
        let _ ← ev.callFunction bound args

/-- Initializes superclasses in the given order. -/
def initSuperclasses (ev : Evaluator) (id : ObjectId) (args : List Value) (paren : Token) :
    List Superclass → Run Unit
  | [] => pure ()
  | s :: rest => do
    ev.initSuperclass id args paren s
    ev.initSuperclasses id args paren rest

/-- Makes and initializes an instance of a class. -/
def instantiate (ev : Evaluator) (c : Class) (args : List Value) (paren : Token) : Run Value := do
  let id ← action paren (Builtin.newInstance c)
  match c.ownInit? with
  | some init => do
    let bound ← bindMethod init (.object id)
    let _ ← ev.callFunction bound args
    match ((← heap).object id).firstUninitialized? with
    | some missing => failAt paren (.uninitializedSuperclass missing)
    | none => pure (.object id)
  | none => do
    ev.initSuperclasses id args paren c.superclasses.reverse
    pure (.object id)

/-- Calls a value that is no import reference. -/
def callTarget (ev : Evaluator) (callee : Value) (args : List Value) (paren : Token) :
    Run Value := do
  match callee with
  | .function f => do
    checkArity f.arity args.length paren
    ev.callFunction f args
  | .native f => do
    checkArity f.arity args.length paren
    action paren (Builtin.callNative f.action args)
  | .cls c => do
    checkArity c.arity args.length paren
    ev.instantiate c args paren
  | .builtinClass c => do
    checkArity c.arity args.length paren
    return .datum (← action paren (Builtin.construct c args))
  | _ => failAt paren .notCallable

/-- Calls a value. -/
def callValue (ev : Evaluator) (callee : Value) (args : List Value) (paren : Token) :
    Run Value := do
  match callee with
  | .imported _ => do ev.callTarget (← deref callee) args paren
  | callee => ev.callTarget callee args paren

/-- Calls a method of a value by name; errors are reported at the token. -/
def callMethod (ev : Evaluator) (receiver : Value) (method : String) (args : List Value)
    (token : Token) : Run Value := do
  match receiver with
  | .datum d => action token (Builtin.callMethod d method args)
  | .object _ => do
    let f ← getProperty receiver (Token.named method token.line)
    ev.callValue f args token
  | _ => failAt (Token.named method token.line) .undefinedMethod

end Evaluator

end ScriptEngine
