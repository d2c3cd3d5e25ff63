import ScriptEngine.Proofs.Evaluator.Local

/-!
# What the evaluator is made of

Apart from imports, everything that evaluating an expression or executing a statement does is
composed of a few kinds of steps: computations on the data of the program, the evaluation of parts,
sequencing, and running something in another frame or as code of another module. `Composed` says so
of a computation, and there is one lemma for each function of the evaluator.

A property that all these steps preserve is then preserved by the whole evaluator, and to prove it
takes one case for each kind of step, not one for each function.
-/

namespace ScriptEngine

namespace Run

/-- Runs a computation and goes on with its value, or with what halted it. -/
def either {α β : Type} (x : Run α) (f : α → Run β) (g : Halt → Run β) : Run β := fun m =>
  match x m with
  | .ok a m => f a m
  | .error halt m => g halt m

/-- Sequencing is a choice whose second case passes the halt on. -/
theorem bind_eq_either {α β : Type} (x : Run α) (f : α → Run β) : x >>= f = x.either f throw := by
  funext m
  show EStateM.bind x f m = _
  unfold EStateM.bind either
  cases x m with
  | ok a m' => rfl
  | error halt m' => rfl

/-- A sequence that has given a value has done so in two parts. -/
theorem bind_ok {α β : Type} {x : Run α} {f : α → Run β} {m m' : Machine} {b : β}
    (h : (x >>= f) m = .ok b m') : ∃ a m₁, x m = .ok a m₁ ∧ f a m₁ = .ok b m' := by
  change EStateM.bind x f m = _ at h
  unfold EStateM.bind at h
  split at h
  · next a m₁ hx => exact ⟨a, m₁, hx, h⟩
  · cases h

/-- A sequence that was halted was halted in its first part, or in what follows it. -/
theorem bind_error {α β : Type} {x : Run α} {f : α → Run β} {m m' : Machine} {halt : Halt}
    (h : (x >>= f) m = .error halt m') :
    x m = .error halt m' ∨ ∃ a m₁, x m = .ok a m₁ ∧ f a m₁ = .error halt m' := by
  change EStateM.bind x f m = _ at h
  unfold EStateM.bind at h
  split at h
  · next a m₁ hx => exact Or.inr ⟨a, m₁, hx, h⟩
  · next halt₁ m₁ hx =>
    cases h
    exact Or.inl hx

/-- A sequence goes on with the value of its first part. -/
theorem bind_of_ok {α β : Type} {x : Run α} {f : α → Run β} {m m' : Machine} {a : α}
    (h : x m = .ok a m') : (x >>= f) m = f a m' := by
  show EStateM.bind x f m = _
  rw [EStateM.bind, h]

/-- A sequence ends where its first part is halted. -/
theorem bind_of_error {α β : Type} {x : Run α} {f : α → Run β} {m m' : Machine} {halt : Halt}
    (h : x m = .error halt m') : (x >>= f) m = .error halt m' := by
  show EStateM.bind x f m = _
  rw [EStateM.bind, h]

end Run

/-! ## Constructs that look at outcomes -/

/-- A round of a loop tests the condition, runs the body and goes on unless something is
returned. -/
theorem loopUpTo_succ (ev : Evaluator) (condition : Expr) (body : Stmt) (rounds : Nat) :
    ev.loopUpTo condition body (rounds + 1) = (do
      let c ← ev.value condition
      if c.isTruthy then
        match ← ev.execute body with
        | .normal => ev.loopUpTo condition body rounds
        | .returned v => pure (.returned v)
      else pure .normal) := by
  funext m
  rw [Evaluator.loopUpTo]
  simp only [bind, EStateM.bind]
  cases ev.value condition m with
  | error halt m₁ => rfl
  | ok c m₁ =>
    dsimp only
    cases c.isTruthy with
    | false => rfl
    | true =>
      simp only [if_true, EStateM.bind]
      cases ev.execute body m₁ with
      | error halt m₂ => rfl
      | ok flow m₂ => cases flow <;> rfl

/-- A guarded block is a choice whose second case hands thrown errors to the handler. -/
theorem runGuarded_eq (ev : Evaluator) (body : List Stmt) (param? : Option Token)
    (handler? : Option (List Stmt)) :
    ev.runGuarded body param? handler? = (ev.runBlock body).either pure fun halt =>
      match halt, handler? with
      | .thrown error, some handler => ev.handle param? handler error
      | halt, _ => throw halt := by
  funext m
  unfold Evaluator.runGuarded Run.either
  cases ev.runBlock body m with
  | ok flow m₁ => rfl
  | error halt m₁ =>
    cases halt with
    | thrown error => cases handler? <;> rfl
    | failed e => rfl
    | exhausted => rfl

/-- What stands behind `finally`, and then the outcome of the rest unless it decides otherwise. -/
def cleaningUp (ev : Evaluator) (cleanup : List Stmt) (outcome : Run Flow) : Run Flow := do
  match ← ev.runBlock cleanup with
  | .normal => outcome
  | .returned v => pure (.returned v)

/-- The outcome of the rest stands unless the cleanup decides otherwise. -/
theorem cleaningUp_eq (ev : Evaluator) (cleanup : List Stmt) (outcome : Run Flow) (m : Machine) :
    cleaningUp ev cleanup outcome m =
      match ev.runBlock cleanup m with
      | .ok .normal m' => outcome m'
      | other => other := by
  show EStateM.bind (ev.runBlock cleanup) _ m = _
  unfold EStateM.bind
  cases ev.runBlock cleanup m with
  | error halt m' => rfl
  | ok flow m' => cases flow <;> rfl

/-- A try statement is a choice whose two cases clean up. -/
theorem attempt_eq (ev : Evaluator) (body : List Stmt) (param? : Option Token)
    (handler? : Option (List Stmt)) (cleanup : List Stmt) :
    ev.attempt body param? handler? (some cleanup) =
      (ev.runGuarded body param? handler?).either (fun flow => cleaningUp ev cleanup (pure flow))
        fun halt =>
          match halt with
          | .exhausted => throw .exhausted
          | halt => cleaningUp ev cleanup (throw halt) := by
  funext m
  unfold Evaluator.attempt Run.either
  dsimp only
  cases ev.runGuarded body param? handler? m with
  | ok flow m₁ => exact (cleaningUp_eq ev cleanup (pure flow) m₁).symm
  | error halt m₁ =>
    cases halt with
    | exhausted => rfl
    | failed e => exact (cleaningUp_eq ev cleanup (throw (.failed e)) m₁).symm
    | thrown id => exact (cleaningUp_eq ev cleanup (throw (.thrown id)) m₁).symm

namespace Evaluator

open Run

/-- The computation is composed of steps on the data of the program and of the evaluation of
parts. What breaks off a part breaks off the whole. -/
inductive Composed : {α : Type} → (Evaluator → Run α) → Prop where
  | basic {α : Type} {x : Run α} (h : x.Local) : Composed fun _ => x
  | evaluate (e : Expr) : Composed fun ev => ev.evaluate e
  | execute (s : Stmt) : Composed fun ev => ev.execute s
  | either {α β : Type} {x : Evaluator → Run α} {f : Evaluator → α → Run β}
      {g : Evaluator → Halt → Run β} (hx : Composed x) (hf : ∀ a, Composed fun ev => f ev a)
      (hg : ∀ halt, halt ≠ .exhausted → Composed fun ev => g ev halt)
      (hexhausted : ∀ ev, g ev .exhausted = throw .exhausted) :
      Composed fun ev => (x ev).either (f ev) (g ev)
  | inNewFrame {α : Type} {x : Evaluator → Run α} (enclosing : FrameId)
      (bindings : List (String × Value)) (hx : Composed x) :
      Composed fun ev => newFrame enclosing bindings >>= fun frame => inFrame frame (x ev)
  | inModule {α : Type} {x : Evaluator → Run α} (id : ModuleId) (hx : Composed x) :
      Composed fun ev => inModule id (x ev)

/-! ## The building blocks -/

theorem composed_plain {α : Type} {x : Run α} (hx : Plain x) : Composed fun _ => x :=
  .basic hx.local

theorem composed_pure {α : Type} (a : α) : Composed fun _ => (pure a : Run α) :=
  composed_plain (plain_pure a)

theorem composed_throw {α : Type} (halt : Halt) : Composed fun _ => (throw halt : Run α) :=
  composed_plain (plain_throw halt)

theorem composed_failAt {α : Type} (token : Token) (cause : Cause) :
    Composed fun _ => (failAt token cause : Run α) :=
  composed_plain (plain_failAt token cause)

/-- Sequences of composed computations are composed. -/
theorem composed_bind {α β : Type} {x : Evaluator → Run α} {f : Evaluator → α → Run β}
    (hx : Composed x) (hf : ∀ a, Composed fun ev => f ev a) :
    Composed fun ev => x ev >>= f ev := by
  simp only [bind_eq_either]
  exact .either hx hf (fun halt _ => composed_throw halt) fun _ => rfl

/-- A check that fails ends the computation, whatever stands behind it. -/
theorem composed_failAt_bind {α β : Type} (token : Token) (cause : Cause)
    (f : Evaluator → α → Run β) : Composed fun ev => failAt token cause >>= f ev :=
  composed_throw (.failed (.located cause token))

/-- What is composed for the target of a reference is so for the reference. -/
theorem composed_throughImport {use : Evaluator → Value → Run Value} (id : ImportId)
    (h : ∀ v, Composed fun ev => use ev v) : Composed fun ev => throughImport id (use ev) := by
  refine composed_bind (composed_plain (plain_deref _)) fun target => ?_
  refine composed_bind (composed_plain plain_heap) fun heap => ?_
  refine composed_bind ((h target).inModule _) fun result => ?_
  exact composed_bind (.basic (local_modifyHeap _)) fun _ => composed_pure _

/-! ## Calls -/

theorem composed_runAll (body : List Stmt) : Composed fun ev => ev.runAll body := by
  induction body with
  | nil => exact composed_pure _
  | cons s rest ih =>
    refine composed_bind (.execute s) fun flow => ?_
    cases flow with
    | normal => exact ih
    | returned value => exact composed_pure _

/-- A new frame inside the current one comes before what is done with it. -/
theorem childFrame_bind {α : Type} (bindings : List (String × Value)) (f : FrameId → Run α) :
    childFrame bindings >>= f = (get >>= fun m => newFrame m.current bindings >>= f) :=
  rfl

/-- A block runs in a frame of its own. -/
theorem composed_runInChild (bindings : List (String × Value)) (body : List Stmt) :
    Composed fun ev => childFrame bindings >>= fun frame => ev.runIn frame body := by
  simp only [childFrame_bind]
  exact composed_bind (composed_plain plain_get) fun m =>
    (composed_runAll body).inNewFrame m.current bindings

theorem composed_runBlock (body : List Stmt) : Composed fun ev => ev.runBlock body :=
  composed_runInChild [] body

/-- The frame of a call and the module of its function can be entered in either order. -/
theorem inModule_inFrame {α : Type} (id : ModuleId) (frame : FrameId) (body : Run α) :
    inModule id (inFrame frame body) = inFrame frame (inModule id body) := by
  funext m
  unfold inModule inFrame
  dsimp only
  cases body { m with active? := some id, current := frame } <;> rfl

/-- A call runs the body in a new frame inside the closure, as code of the home of the function. -/
theorem callFunction_eq (ev : Evaluator) (f : Function) (args : List Value) :
    ev.callFunction f args = (do
      let flow ← newFrame f.closure (bindParams f.decl.params args) >>= fun frame =>
        inFrame frame (inModule f.home (ev.runAll f.decl.body))
      let result :=
        match flow with
        | .returned value => value
        | .normal => .null
      if f.isInitializer then finishInit f result else pure result) := by
  unfold callFunction runIn
  simp only [inModule_inFrame]
  rfl

/-- A call of a function of the program is composed. -/
theorem composed_callFunction (f : Function) (args : List Value) :
    Composed fun ev => ev.callFunction f args := by
  simp only [callFunction_eq]
  refine composed_bind (((composed_runAll _).inModule _).inNewFrame _ _) fun flow => ?_
  split
  · exact .basic (local_finishInit _ _)
  · exact composed_pure _

/-- The initialization of one superclass is composed. -/
theorem composed_initSuperclass (id : ObjectId) (args : List Value)
    (paren : Token) (s : Superclass) : Composed fun ev => ev.initSuperclass id args paren s := by
  unfold initSuperclass
  split
  · exact .basic (local_setStatus _ _ _)
  · refine composed_bind (.basic (local_setStatus _ _ _)) fun _ => ?_
    split
    · exact .basic (local_setStatus _ _ _)
    · split
      · exact composed_pure _
      · refine composed_bind (composed_plain (plain_bindMethod _ _)) fun bound => ?_
        refine composed_bind (composed_plain (plain_checkArity _ _ _)) fun _ => ?_
        exact composed_bind (composed_callFunction _ _) fun _ => composed_pure _

theorem composed_initSuperclasses (id : ObjectId) (args : List Value)
    (paren : Token) (supers : List Superclass) :
    Composed fun ev => ev.initSuperclasses id args paren supers := by
  induction supers with
  | nil => exact composed_pure _
  | cons s rest ih => exact composed_bind (composed_initSuperclass _ _ _ s) fun _ => ih

theorem composed_instantiate (c : Class) (args : List Value) (paren : Token) :
    Composed fun ev => ev.instantiate c args paren := by
  refine composed_bind (.basic (local_action _ _)) fun id => ?_
  split
  · refine composed_bind (composed_plain (plain_bindMethod _ _)) fun bound => ?_
    refine composed_bind (composed_callFunction _ _) fun _ => ?_
    refine composed_bind (composed_plain plain_heap) fun heap => ?_
    split
    · exact composed_failAt _ _
    · exact composed_pure _
  · exact composed_bind (composed_initSuperclasses _ _ _ _) fun _ => composed_pure _

theorem composed_callTarget (callee : Value) (args : List Value)
    (paren : Token) : Composed fun ev => ev.callTarget callee args paren := by
  unfold callTarget
  split
  · exact composed_bind (composed_plain (plain_checkArity _ _ _)) fun _ => composed_callFunction _ _
  · exact composed_bind (composed_plain (plain_checkArity _ _ _)) fun _ => .basic (local_action _ _)
  · refine composed_bind (composed_plain (plain_checkArity _ _ _)) fun _ => ?_
    exact composed_instantiate _ _ _
  · refine composed_bind (composed_plain (plain_checkArity _ _ _)) fun _ => ?_
    exact composed_bind (.basic (local_action _ _)) fun _ => composed_pure _
  · exact composed_failAt _ _

theorem composed_callValue (callee : Value) (args : List Value)
    (paren : Token) : Composed fun ev => ev.callValue callee args paren := by
  unfold callValue
  split
  · exact composed_bind (composed_plain (plain_deref _)) fun _ => composed_callTarget _ _ _
  · exact composed_callTarget _ _ _

theorem composed_callMethod (receiver : Value) (method : String)
    (args : List Value) (token : Token) :
    Composed fun ev => ev.callMethod receiver method args token := by
  unfold callMethod
  split
  · exact .basic (local_action _ _)
  · exact composed_bind (composed_plain (plain_getProperty _ _)) fun _ => composed_callValue _ _ _
  · exact composed_failAt _ _

/-! ## Operators -/

theorem composed_binaryOperation (left : Value) (operator : Token)
    (right : Value) : Composed fun ev => ev.binaryOperation left operator right := by
  unfold binaryOperation
  split
  · exact composed_failAt _ _
  · refine composed_bind (composed_plain plain_heap) fun h₁ => ?_
    split
    · exact composed_callMethod _ _ _ _
    · refine composed_bind (composed_plain plain_heap) fun h₂ => ?_
      split
      · exact composed_callMethod _ _ _ _
      · split
        · exact composed_plain (plain_nullOperation _)
        · exact composed_failAt _ _

theorem composed_unaryOperation (operator : Token) (operand : Value) :
    Composed fun ev => ev.unaryOperation operator operand := by
  unfold unaryOperation
  split
  · exact composed_failAt _ _
  · refine composed_bind (composed_plain plain_heap) fun h₁ => ?_
    split
    · exact composed_callMethod _ _ _ _
    · exact composed_failAt _ _

theorem composed_indexGet (object index : Value) (bracket : Token) :
    Composed fun ev => ev.indexGet object index bracket := by
  unfold indexGet
  dsimp only
  split
  · exact composed_failAt_bind _ _ _
  · refine composed_bind (composed_plain plain_heap) fun h₁ => ?_
    split
    · exact composed_failAt_bind _ _ _
    · exact composed_callMethod _ _ _ _

theorem composed_indexSet (object index value : Value) (equals : Token) :
    Composed fun ev => ev.indexSet object index value equals := by
  unfold indexSet
  dsimp only
  split
  · exact composed_failAt_bind _ _ _
  · refine composed_bind (composed_plain plain_heap) fun h₁ => ?_
    split
    · exact composed_failAt_bind _ _ _
    · exact composed_bind (composed_callMethod _ _ _ _) fun _ => composed_pure _

/-! ## Expressions -/

theorem composed_value (e : Expr) : Composed fun ev => ev.value e :=
  composed_bind (.evaluate e) fun _ => composed_plain (plain_deref _)

theorem composed_values (es : List Expr) : Composed fun ev => ev.values es := by
  induction es with
  | nil => exact composed_pure _
  | cons e es ih =>
    refine composed_bind (composed_value e) fun first => ?_
    exact composed_bind ih fun rest => composed_pure _

theorem composed_mapValues (entries : List (Token × Expr)) (cell : MapCell) :
    Composed fun ev => ev.mapValues entries cell := by
  induction entries generalizing cell with
  | nil => exact composed_pure _
  | cons entry entries ih =>
    refine composed_bind (composed_value entry.2) fun v => ?_
    exact composed_bind (composed_plain plain_heap) fun _ => ih _

theorem composed_call (callee : Expr) (paren : Token) (arguments : List Expr) :
    Composed fun ev => ev.call callee paren arguments := by
  refine composed_bind (.evaluate callee) fun f => ?_
  refine composed_bind (composed_values arguments) fun args => ?_
  split
  · exact composed_throughImport _ fun _ => composed_callValue _ _ _
  · exact composed_callValue _ _ _

theorem composed_property (object : Expr) (name : Token) :
    Composed fun ev => ev.property object name := by
  refine composed_bind (.evaluate object) fun v => ?_
  split
  · exact composed_throughImport _ fun _ => composed_plain (plain_getProperty _ _)
  · exact composed_plain (plain_getProperty _ _)

theorem composed_setProperty (object : Expr) (name : Token) (e : Expr) :
    Composed fun ev => ev.setProperty object name e := by
  refine composed_bind (composed_value object) fun o => ?_
  split
  · refine composed_bind (composed_value e) fun v => ?_
    exact composed_bind (.basic (local_modifyHeap _)) fun _ => composed_pure _
  · exact composed_failAt _ _

/-- One level of evaluation is composed. -/
theorem composed_evaluateStep (e : Expr) : Composed fun ev => ev.evaluateStep e := by
  cases e with
  | constant id c => exact composed_pure _
  | reference ref => exact composed_plain (plain_lookUp _ _)
  | assign id name e =>
    refine composed_bind (composed_value e) fun v => ?_
    exact composed_bind (composed_plain (plain_assign _ _ _)) fun _ => composed_pure _
  | grouping id inner => exact composed_value inner
  | binary id left operator right =>
    refine composed_bind (composed_value left) fun l => ?_
    exact composed_bind (composed_value right) fun r => composed_binaryOperation _ _ _
  | unary id operator operand =>
    exact composed_bind (composed_value operand) fun v => composed_unaryOperation _ _
  | logical id left operator right =>
    refine composed_bind (composed_value left) fun l => ?_
    dsimp only
    -- Which operator it is decides only whether the right side is evaluated at all.
    generalize (if operator.kind = .or then l.isTruthy else !l.isTruthy) = decided
    cases decided with
    | true => exact composed_pure _
    | false => exact composed_value right
  | call id callee paren arguments => exact composed_call _ _ _
  | get id object name => exact composed_property _ _
  | set id object name e => exact composed_setProperty _ _ _
  | getItem id object bracket index =>
    refine composed_bind (composed_value object) fun o => ?_
    exact composed_bind (composed_value index) fun i => composed_indexGet _ _ _
  | setItem id object index equals e =>
    refine composed_bind (composed_value object) fun o => ?_
    refine composed_bind (composed_value index) fun i => ?_
    refine composed_bind (composed_value e) fun v => ?_
    exact composed_bind (composed_indexSet _ _ _ _) fun _ => composed_pure _
  | self id keyword => exact composed_plain (plain_lookUp _ _)
  | super id keyword className method => exact .basic (local_superMethod _ _ _ _)
  | array id elements =>
    refine composed_bind (composed_values elements) fun items => ?_
    exact composed_bind (composed_plain (plain_onHeap fun _ => rfl)) fun _ => composed_pure _
  | map id entries =>
    refine composed_bind (composed_mapValues entries _) fun cell => ?_
    exact composed_bind (composed_plain (plain_onHeap fun _ => rfl)) fun _ => composed_pure _
  | lambda id decl => exact composed_plain (plain_closure decl)

/-! ## Statements -/

theorem composed_exportDeclared (inner : Stmt) :
    Composed fun ev => ev.exportDeclared inner := by
  simp only [exportDeclared_eq]
  exact composed_bind (.execute inner) fun flow => composed_plain (plain_recordExport inner flow)

/-- Loops are composed, by induction on the rounds. -/
theorem composed_loopUpTo (condition : Expr) (body : Stmt) (rounds : Nat) :
    Composed fun ev => ev.loopUpTo condition body rounds := by
  induction rounds with
  | zero => exact composed_throw _
  | succ rounds ih =>
    simp only [loopUpTo_succ]
    refine composed_bind (composed_value condition) fun c => ?_
    split
    · refine composed_bind (.execute body) fun flow => ?_
      cases flow with
      | normal => exact ih
      | returned v => exact composed_pure _
    · exact composed_pure _

theorem composed_handle (param? : Option Token) (handler : List Stmt)
    (error : ErrorId) : Composed fun ev => ev.handle param? handler error :=
  composed_runInChild _ handler

theorem composed_runGuarded (body : List Stmt) (param? : Option Token)
    (handler? : Option (List Stmt)) : Composed fun ev => ev.runGuarded body param? handler? := by
  simp only [runGuarded_eq]
  refine .either (composed_runBlock body) (fun flow => composed_pure flow) (fun halt _ => ?_)
    fun _ => rfl
  split
  · exact composed_handle _ _ _
  · exact composed_throw _

theorem composed_cleaningUp (cleanup : List Stmt) {outcome : Run Flow} (h : outcome.Local) :
    Composed fun ev => cleaningUp ev cleanup outcome := by
  refine composed_bind (composed_runBlock cleanup) fun flow => ?_
  cases flow with
  | normal => exact .basic h
  | returned v => exact composed_pure _

theorem composed_attempt (body : List Stmt) (param? : Option Token)
    (handler? cleanup? : Option (List Stmt)) :
    Composed fun ev => ev.attempt body param? handler? cleanup? := by
  cases cleanup? with
  | none => exact composed_runGuarded _ _ _
  | some cleanup =>
    simp only [attempt_eq]
    refine .either (composed_runGuarded body param? handler?)
      (fun flow => composed_cleaningUp cleanup (plain_pure flow).local) (fun halt hne => ?_)
      fun _ => rfl
    cases halt with
    | exhausted => exact absurd rfl hne
    | failed e => exact composed_cleaningUp cleanup (plain_throw _).local
    | thrown id => exact composed_cleaningUp cleanup (plain_throw _).local

theorem composed_thrownError (keyword : Token) (v : Value) :
    Composed fun ev => ev.thrownError keyword v := by
  unfold thrownError
  split
  · exact composed_bind (.basic (local_modifyHeap _)) fun _ => composed_pure _
  · refine composed_bind (composed_plain plain_heap) fun heap => ?_
    split
    · refine composed_bind (composed_callMethod _ _ _ _) fun message => ?_
      refine composed_bind (composed_plain plain_heap) fun heap => ?_
      exact composed_plain (plain_onHeap fun _ => rfl)
    · exact composed_failAt _ _
  · exact composed_failAt _ _

theorem composed_optionalValue (e? : Option Expr) :
    Composed fun ev => ev.optionalValue e? := by
  cases e? with
  | none => exact composed_pure _
  | some e => exact composed_value e

/-- One level of execution is composed, apart from imports: they run other programs. -/
theorem composed_executeStep (rounds : Nat) {s : Stmt}
    (hs : ∀ path items, s ≠ .importFrom path items) :
    Composed fun ev => ev.executeStep rounds s := by
  cases s with
  | expression e => exact composed_bind (.evaluate e) fun _ => composed_pure _
  | print e =>
    refine composed_bind (composed_value e) fun v => ?_
    refine composed_bind (composed_plain plain_heap) fun heap => ?_
    exact composed_bind (composed_plain (plain_print _)) fun _ => composed_pure _
  | var name init? =>
    refine composed_bind (composed_optionalValue init?) fun v => ?_
    exact composed_bind (composed_plain (plain_define _ _)) fun _ => composed_pure _
  | block body => exact composed_runBlock body
  | branch condition thenPart elsePart? =>
    refine composed_bind (composed_value condition) fun c => ?_
    split
    · exact .execute thenPart
    · cases elsePart? with
      | some elsePart => exact .execute elsePart
      | none => exact composed_pure _
  | loop condition body => exact composed_loopUpTo _ _ _
  | function decl =>
    refine composed_bind (composed_plain (plain_closure decl)) fun f => ?_
    exact composed_bind (composed_plain (plain_define _ _)) fun _ => composed_pure _
  | ret keyword value? =>
    exact composed_bind (composed_optionalValue value?) fun _ => composed_pure _
  | classDecl name refs decls =>
    exact composed_bind (composed_plain (plain_declareClass _ _ _)) fun _ => composed_pure _
  | importFrom path items => exact absurd rfl (hs path items)
  | exported inner => exact composed_exportDeclared inner
  | throw keyword e =>
    refine composed_bind (composed_value e) fun v => ?_
    -- The message of what is thrown may be the result of a call, which comes back like any other.
    exact composed_bind (composed_thrownError _ _) fun id => composed_throw _
  | attempt body param? handler? cleanup? => exact composed_attempt _ _ _ _

end Evaluator

end ScriptEngine
