import ScriptEngine.Evaluator.Expression
import ScriptEngine.Evaluator.Module

/-!
# Statements

The effect of a statement, given the evaluation of its parts. A loop has a bound on its rounds of
its own, so that a long loop needs no depth.
-/

namespace ScriptEngine.Evaluator

open Run

/-- At most `rounds` rounds of a loop. -/
def loopUpTo (ev : Evaluator) (condition : Expr) (body : Stmt) : Nat → Run Flow
  | 0 => throw .exhausted
  | rounds + 1 => fun m =>
    match ev.value condition m with
    | .error halt m => .error halt m
    | .ok c m =>
      if c.isTruthy then
        match ev.execute body m with
        | .error halt m => .error halt m
        | .ok (.returned v) m => .ok (.returned v) m
        | .ok .normal m => ev.loopUpTo condition body rounds m
      else .ok .normal m

/-- The handler of a try statement, in a new frame that binds the error. -/
def handle (ev : Evaluator) (param? : Option Token) (handler : List Stmt) (error : ErrorId) :
    Run Flow := do
  let bindings := param?.toList.map fun p => (p.lexeme, Value.datum (.error error))
  ev.runIn (← childFrame bindings) handler

/-- The body of a try statement and, if it throws, its handler. -/
def runGuarded (ev : Evaluator) (body : List Stmt) (param? : Option Token)
    (handler? : Option (List Stmt)) : Run Flow := fun m =>
  match ev.runBlock body m with
  | .error (.thrown error) m =>
    match handler? with
    | some handler => ev.handle param? handler error m
    | none => .error (.thrown error) m
  | other => other

/-- A try statement. What stands behind `finally` runs however the rest ended, and decides the
outcome if it does not end normally itself. -/
def attempt (ev : Evaluator) (body : List Stmt) (param? : Option Token)
    (handler? cleanup? : Option (List Stmt)) : Run Flow :=
  match cleanup? with
  | none => ev.runGuarded body param? handler?
  | some cleanup => fun m =>
    match ev.runGuarded body param? handler? m with
    | .error .exhausted m => .error .exhausted m
    | .ok flow m =>
      match ev.runBlock cleanup m with
      | .ok .normal m => .ok flow m
      | other => other
    | .error halt m =>
      match ev.runBlock cleanup m with
      | .ok .normal m => .error halt m
      | other => other

/-- The error that a thrown value stands for. An error is marked with its `throw`; an instance of
a subclass of the error class gives a new error that says its message and how it looks. -/
def thrownError (ev : Evaluator) (keyword : Token) : Value → Run ErrorId
  | .datum (.error id) => do
    modifyHeap fun h => h.modifyError id fun cell => { cell with token? := some keyword }
    pure id
  | .object id => do
    if (((← heap).object id).native? .error).isSome then
      let message ← ev.callMethod (.object id) "getMessage" [] keyword
      let h ← heap
      let text := h.display message ++ "\n" ++ h.display (.object id)
      onHeap fun h => h.newError ⟨.string text, some keyword⟩
    else failAt keyword .invalidThrow
  | _ => failAt keyword .invalidThrow

/-- The value of an optional expression, `null` if there is none. -/
def optionalValue (ev : Evaluator) : Option Expr → Run Value
  | none => pure .null
  | some e => ev.value e

/-- Runs a statement. A loop in it makes at most `rounds` rounds. -/
def executeStep (ev : Evaluator) (rounds : Nat) : Stmt → Run Flow
  | .expression e => do
    let _ ← ev.evaluate e
    pure .normal
  | .print e => do
    let v ← ev.value e
    print ((← heap).display v)
    pure .normal
  | .var name init? => do
    let v ← ev.optionalValue init?
    define name v
    pure .normal
  | .block body => ev.runBlock body
  | .branch condition thenPart elsePart? => do
    if (← ev.value condition).isTruthy then ev.execute thenPart
    else
      match elsePart? with
      | some elsePart => ev.execute elsePart
      | none => pure .normal
  | .loop condition body => ev.loopUpTo condition body rounds
  | .function decl => do
    define decl.name (← closure decl)
    pure .normal
  | .ret _ value? => do return .returned (← ev.optionalValue value?)
  | .classDecl name refs decls => do
    declareClass name refs decls
    pure .normal
  | .importFrom path items => do
    ev.importNames path items
    pure .normal
  | .exported inner => ev.exportDeclared inner
  | .throw keyword e => do
    let v ← ev.value e
    throw (.thrown (← ev.thrownError keyword v))
  | .attempt body param? handler? cleanup? => ev.attempt body param? handler? cleanup?

end ScriptEngine.Evaluator
