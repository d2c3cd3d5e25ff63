import ScriptEngine.Proofs.Evaluator.Closing

/-!
# Slots are closed by nothing else

Every expression and every statement closes a slot at one of the moments that it visits, if it does
so at all (`tracedUpTo`), and so do the statements of modules and of a root. For an expression or a
statement that leads to calls, the cause that `traced_callTarget` and the like speak of is carried
from the beginning of its moment; all others close no slot besides what their parts do.
-/

namespace ScriptEngine

namespace Evaluator

open Run
open Slot (traced_spares traced_of_objects traced_plain traced_throw traced_pure traced_failAt_bind)

variable {slot : Slot} {levels : Nat} {cause : Prop} {m : Machine}

section Parts

variable (h : TracedUpTo slot levels)
include h

/-! ## Expressions -/

theorem traced_value (e : Expr) :
    slot.Traced cause (fun o => (evaluatorUnder o levels).value e) m :=
  traced_bind (h.evaluate e) fun _ _ _ => traced_plain (plain_deref _)

/-- Arguments close the slot at their own moments only. -/
theorem traced_values (es : List Expr) :
    ∀ {m}, slot.Traced cause (fun o => (evaluatorUnder o levels).values es) m := by
  induction es with
  | nil => exact traced_pure _
  | cons e es ih =>
    intro m
    refine traced_bind (traced_value h e) fun first m₁ _ => ?_
    exact traced_bind ih fun rest m₂ _ => traced_pure _

theorem traced_mapValues (entries : List (Token × Expr)) :
    ∀ {cell m},
      slot.Traced cause (fun o => (evaluatorUnder o levels).mapValues entries cell) m := by
  induction entries with
  | nil => exact traced_pure _
  | cons entry entries ih =>
    intro cell m
    refine traced_bind (traced_value h entry.2) fun v m₁ _ => ?_
    exact traced_bind (traced_plain plain_heap) fun _ _ _ => ih

/-- The value of a callee is called at once, and what an import reference stands for is called as
code of the module that it points to. -/
theorem traced_call (id : ExprId) (callee : Expr) (paren : Token) (arguments : List Expr) :
    slot.Traced (slot.ClosesAt (.evaluating (.call id callee paren arguments)) m)
      (fun o => (evaluatorUnder o levels).call callee paren arguments) m := by
  refine traced_bind (h.evaluate callee) fun f m₁ hf => ?_
  refine traced_bind (traced_values h arguments) fun args m₂ hargs => ?_
  rw [evaluatorUnder_quiet] at hf hargs
  by_cases himported : ∃ i, f = .imported i
  · obtain ⟨i, rfl⟩ := himported
    refine traced_bind (traced_plain (plain_deref _)) fun target m₃ htarget => ?_
    refine Traced.of_eq ?_ rfl fun o => Run.heap_bind _ m₃
    refine traced_bind (traced_inModule _ ?_) fun result m₄ _ => ?_
    · simp only [callValue_eq _ (derefUpTo_ne_imported _ htarget)]
      exact traced_callTarget h (.imported id paren hf hargs htarget)
    · exact traced_bind (traced_plain (plain_refreshImport _ _)) fun _ _ _ => traced_pure _
  · have hlocal : ∀ i, f ≠ .imported i := fun i heq => himported ⟨i, heq⟩
    have hstarts := Starts.call id paren hf hlocal hargs
    cases f with
    | imported i => exact absurd rfl (hlocal i)
    | _ => exact traced_callTarget h hstarts

/-- Reading a property closes the slot where its object does. -/
theorem traced_property (object : Expr) (name : Token) :
    slot.Traced cause (fun o => (evaluatorUnder o levels).property object name) m := by
  refine traced_bind (h.evaluate object) fun v m₁ _ => ?_
  cases v with
  | imported i =>
    refine traced_bind (traced_plain (plain_deref _)) fun target m₂ _ => ?_
    refine traced_bind (traced_plain plain_heap) fun heap m₃ _ => ?_
    refine traced_bind (traced_inModule _ (traced_plain (plain_getProperty _ _))) fun v m₄ _ => ?_
    exact traced_bind (traced_plain (plain_refreshImport _ _)) fun _ _ _ => traced_pure _
  | _ => exact traced_plain (plain_getProperty _ _)

/-- Writing a property closes the slot where its object or its value does. -/
theorem traced_setProperty (object : Expr) (name : Token) (e : Expr) :
    slot.Traced cause (fun o => (evaluatorUnder o levels).setProperty object name e) m := by
  refine traced_bind (traced_value h object) fun x m₁ _ => ?_
  cases x with
  | object id =>
    refine traced_bind (traced_value h e) fun v m₂ _ => ?_
    exact traced_bind (traced_spares (spares_setField _ _ _)) fun _ _ _ => traced_pure _
  | _ => exact traced_plain (plain_failAt _ _)

/-- An expression closes the slot at a moment of its parts, or at its own. -/
theorem traced_evaluateStep (e : Expr) :
    slot.Traced (slot.ClosesAt (.evaluating e) m)
      (fun o => (evaluatorUnder o levels).evaluateStep e) m := by
  cases e with
  | constant id c => exact traced_pure _
  | reference ref => exact traced_plain (plain_lookUp _ _)
  | assign id name e =>
    refine traced_bind (traced_value h e) fun v m₁ _ => ?_
    exact traced_bind (traced_plain (plain_assign _ _ _)) fun _ _ _ => traced_pure _
  | grouping id inner => exact traced_value h inner
  | binary id left operator right =>
    refine traced_bind (traced_value h left) fun l m₁ hl => ?_
    refine traced_bind (traced_value h right) fun r m₂ hr => ?_
    rw [evaluatorUnder_quiet] at hl hr
    exact traced_binaryOperation h (.binary id operator hl hr) (.flipped id operator hl hr)
  | unary id operator operand =>
    refine traced_bind (traced_value h operand) fun v m₁ hv => ?_
    rw [evaluatorUnder_quiet] at hv
    exact traced_unaryOperation h (.unary id operator hv)
  | logical id left operator right =>
    refine traced_bind (traced_value h left) fun l m₁ _ => ?_
    dsimp only
    generalize (if operator.kind = .or then l.isTruthy else !l.isTruthy) = decided
    cases decided with
    | true => exact traced_pure _
    | false => exact traced_value h right
  | call id callee paren arguments => exact traced_call h id callee paren arguments
  | get id object name => exact traced_property h object name
  | set id object name e => exact traced_setProperty h object name e
  | getItem id object bracket index =>
    refine traced_bind (traced_value h object) fun x m₁ hx => ?_
    refine traced_bind (traced_value h index) fun i m₂ hi => ?_
    rw [evaluatorUnder_quiet] at hx hi
    exact traced_indexGet h (.getItem id bracket hx hi)
  | setItem id object index equals e =>
    refine traced_bind (traced_value h object) fun x m₁ hx => ?_
    refine traced_bind (traced_value h index) fun i m₂ hi => ?_
    refine traced_bind (traced_value h e) fun v m₃ hv => ?_
    rw [evaluatorUnder_quiet] at hx hi hv
    exact traced_bind (traced_indexSet h (.setItem id equals hx hi hv)) fun _ _ _ => traced_pure _
  | self id keyword => exact traced_plain (plain_lookUp _ _)
  | super id keyword className method =>
    exact traced_basic fun hclosed => (closed_superMethod hclosed).imp_right .asked
  | array id elements =>
    refine traced_bind (traced_values h elements) fun items m₁ _ => ?_
    exact traced_bind (traced_plain (plain_onHeap fun _ => rfl)) fun _ _ _ => traced_pure _
  | map id entries =>
    refine traced_bind (traced_mapValues h entries) fun cell m₁ _ => ?_
    exact traced_bind (traced_plain (plain_onHeap fun _ => rfl)) fun _ _ _ => traced_pure _
  | lambda id decl => exact traced_plain (plain_closure decl)

/-! ## Statements -/

/-- A loop closes the slot at moments of its rounds only. -/
theorem traced_loopUpTo (condition : Expr) (body : Stmt) (rounds : Nat) :
    ∀ {m}, slot.Traced cause
      (fun o => (evaluatorUnder o levels).loopUpTo condition body rounds) m := by
  induction rounds with
  | zero => exact traced_throw _
  | succ rounds ih =>
    intro m
    simp only [loopUpTo_succ]
    refine traced_bind (traced_value h condition) fun c m₁ _ => ?_
    cases c.isTruthy with
    | true =>
      refine traced_bind (h.execute body) fun flow m₂ _ => ?_
      cases flow with
      | normal => exact ih
      | returned v => exact traced_pure _
    | false => exact traced_pure _

/-- A guarded block closes the slot at its own moments or those of its handler. -/
theorem traced_runGuarded (body : List Stmt) (param? : Option Token)
    (handler? : Option (List Stmt)) :
    slot.Traced cause (fun o => (evaluatorUnder o levels).runGuarded body param? handler?) m := by
  simp only [runGuarded_eq]
  refine traced_either (traced_runBlock h body) (fun flow m₁ _ => traced_pure flow)
    (fun halt m₁ _ _ => ?_) fun _ => rfl
  cases halt with
  | thrown error =>
    cases handler? with
    | some handler =>
      exact traced_bind (traced_plain (plain_childFrame _)) fun _ _ _ => traced_runIn h _ _
    | none => exact traced_throw _
  | _ => exact traced_throw _

/-- Cleaning up adds the moments of the cleanup. -/
theorem traced_cleaningUp (cleanup : List Stmt) {outcome : Run Flow}
    (houtcome : Plain outcome) :
    slot.Traced cause (fun o => cleaningUp (evaluatorUnder o levels) cleanup outcome) m := by
  refine traced_bind (traced_runBlock h cleanup) fun flow m₁ _ => ?_
  cases flow with
  | normal => exact traced_plain houtcome
  | returned v => exact traced_pure _

/-- A try statement closes the slot at moments of its blocks only. -/
theorem traced_attempt (body : List Stmt) (param? : Option Token)
    (handler? cleanup? : Option (List Stmt)) :
    slot.Traced cause
      (fun o => (evaluatorUnder o levels).attempt body param? handler? cleanup?) m := by
  cases cleanup? with
  | none => exact traced_runGuarded h body param? handler?
  | some cleanup =>
    simp only [attempt_eq]
    refine traced_either (traced_runGuarded h body param? handler?)
      (fun flow m₁ _ => traced_cleaningUp h cleanup (plain_pure flow)) (fun halt m₁ hne _ => ?_)
      fun _ => rfl
    cases halt with
    | exhausted => exact absurd rfl hne
    | failed e => exact traced_cleaningUp h cleanup (plain_throw _)
    | thrown id => exact traced_cleaningUp h cleanup (plain_throw _)

theorem traced_optionalValue (e? : Option Expr) :
    slot.Traced cause (fun o => (evaluatorUnder o levels).optionalValue e?) m := by
  cases e? with
  | none => exact traced_pure _
  | some e => exact traced_value h e

theorem traced_exportDeclared (inner : Stmt) :
    slot.Traced cause (fun o => (evaluatorUnder o levels).exportDeclared inner) m := by
  refine traced_bind (h.execute inner) fun flow m₁ _ => ?_
  refine traced_bind (traced_plain plain_activeModule) fun id m₂ _ => ?_
  refine traced_bind (traced_plain plain_get) fun m' m₃ _ => ?_
  dsimp only
  split
  · split
    · refine traced_bind (traced_plain (plain_ofExcept _)) fun value m₄ _ => ?_
      exact traced_bind (traced_of_objects fun _ => rfl) fun _ _ _ => traced_pure _
    · exact traced_pure _
  · exact traced_pure _

/-- What an instance says when it is thrown is what its method answers. -/
theorem traced_throwing (keyword : Token) (e : Expr) :
    slot.Traced (slot.ClosesAt (.executing (.throw keyword e)) m) (fun o => (do
      let v ← (evaluatorUnder o levels).value e
      throw (.thrown (← (evaluatorUnder o levels).thrownError keyword v)) : Run Flow)) m := by
  refine traced_bind (traced_value h e) fun v m₁ hv => ?_
  rw [evaluatorUnder_quiet] at hv
  refine traced_bind ?_ fun _ _ _ => traced_throw _
  unfold thrownError
  split
  · refine traced_plain (plain_bind (plain_modifyHeap fun _ => rfl) fun _ => plain_pure _)
  · next id =>
    refine Traced.of_eq ?_ rfl fun o => Run.heap_bind _ m₁
    by_cases herror : ((m₁.store.heap.object id).native? .error).isSome = true
    · simp only [if_pos herror]
      refine traced_bind (traced_callMethod h fun id' f m₂ target m₃ heq hread htarget => ?_)
        fun message m₂ _ => ?_
      · cases heq
        exact .message keyword hv herror hread htarget
      · refine traced_plain (plain_bind plain_heap fun _ => ?_)
        exact plain_onHeap fun _ => rfl
    · simp only [if_neg herror]
      exact traced_plain (plain_failAt _ _)
  · exact traced_plain (plain_failAt _ _)

/-! ## Modules -/

/-- Statements of a module close the slot at their moments only. -/
theorem traced_runTopLevel (statements : List Stmt) :
    ∀ {m}, slot.Traced cause (fun o => (evaluatorUnder o levels).runTopLevel statements) m := by
  induction statements with
  | nil => exact traced_pure _
  | cons s rest ih =>
    intro m
    simp only [runTopLevel_cons]
    refine traced_either (h.execute s) (fun flow m₁ _ => ih) (fun halt m₁ _ _ => ?_) fun _ => rfl
    cases halt with
    | exhausted => exact traced_throw _
    | failed e => exact traced_of_objects fun _ => rfl
    | thrown id => exact traced_of_objects fun _ => rfl

theorem traced_runModule (id : ModuleId) (statements : List Stmt) :
    slot.Traced cause (fun o => (evaluatorUnder o levels).runModule id statements) m := by
  rcases runModule_cases id statements m with ⟨errors, -, hrun⟩ | ⟨distances, -, hrun⟩
  · refine Traced.of_eq (traced_pure () : slot.Traced cause _ (closeModule id { m with
      active? := some id, current := (m.modules.node id).globals,
      reporter := errors.foldl Reporter.scope m.reporter })) rfl fun o => hrun _
  · have hbody : slot.Traced cause (fun o => (do
        (evaluatorUnder o levels).runTopLevel statements
        modify (closeModule id) : Run Unit)) (openModule id distances m) :=
      traced_bind (traced_runTopLevel h statements) fun _ _ _ =>
        traced_of_objects fun _ => rfl
    exact hbody.of_eq rfl fun o => hrun _

theorem traced_loadModule (importer : ModuleId) (path : Path) (token : Token) :
    slot.Traced cause (fun o => (evaluatorUnder o levels).loadModule importer path token) m := by
  rcases loadModule_cases importer path token m with ⟨existing, -, hload⟩ |
    ⟨-, reporter, nextExpr, -, ⟨e, hload⟩ | ⟨source, statements, -, -, hload⟩⟩
  · exact Traced.of_eq (traced_pure () : slot.Traced cause _
      { m with modules := m.modules.addChild importer existing }) rfl fun o => hload _
  · exact Traced.of_eq (traced_throw (.failed e) : slot.Traced cause _
      { m with reporter := reporter, nextExpr := nextExpr }) rfl fun o => hload _
  · have himported : slot.Traced cause
        (fun o => (evaluatorUnder o levels).runImported importer path statements)
        { m with reporter := reporter, nextExpr := nextExpr } := by
      refine traced_bind (traced_plain plain_get) fun _ _ _ => ?_
      refine traced_bind (traced_of_objects fun _ => rfl) fun child _ _ => ?_
      refine traced_bind (traced_of_objects fun _ => rfl) fun _ _ _ => ?_
      refine traced_bind (traced_runModule h child statements) fun _ _ _ => ?_
      exact traced_of_objects fun _ => rfl
    exact himported.of_eq rfl fun o => hload _

/-- An import closes the slot at moments of the modules that it loads. -/
theorem traced_importNames (token : Token) (items : List ImportItem) :
    slot.Traced cause (fun o => (evaluatorUnder o levels).importNames token items) m := by
  rcases importNames_cases token items m with ⟨e, -, himport⟩ | ⟨importer, -, -, himport⟩
  · exact Traced.of_eq (traced_throw (.failed e)) rfl fun o => himport _
  · refine Traced.of_eq (traced_bind (traced_loadModule h _ _ _) fun _ m₁ _ => ?_) rfl
      fun o => himport _
    exact traced_plain (plain_bindLoaded _ _ _ _)

/-- A root closes the slot at moments of its statements only. -/
theorem traced_runRoot (path : Path) (statements : List Stmt) :
    slot.Traced cause (fun o => (evaluatorUnder o levels).runRoot path statements) m := by
  have hleave : ∀ (root : ModuleId) (m : Machine), slot.Traced cause (fun o => (do
      (evaluatorUnder o levels).runModule root statements
      modify fun m => { m with current := Machine.builtins } : Run Unit)) m := fun root _ =>
    traced_bind (traced_runModule h root statements) fun _ _ _ =>
      traced_of_objects fun _ => rfl
  rcases runRoot_cases path statements m with ⟨root, -, hrun⟩ | hrun
  · exact (hleave root m).of_eq rfl fun o => hrun _
  · exact (hleave m.modules.size (m.createModule none path).2).of_eq rfl fun o => hrun _

/-- A statement closes the slot at a moment of its parts, or at its own. -/
theorem traced_executeStep (rounds : Nat) (s : Stmt) :
    slot.Traced (slot.ClosesAt (.executing s) m)
      (fun o => (evaluatorUnder o levels).executeStep rounds s) m := by
  cases s with
  | expression e => exact traced_bind (h.evaluate e) fun _ _ _ => traced_pure _
  | print e =>
    refine traced_bind (traced_value h e) fun v m₁ _ => ?_
    refine traced_bind (traced_plain plain_heap) fun heap m₂ _ => ?_
    exact traced_bind (traced_plain (plain_print _)) fun _ _ _ => traced_pure _
  | var name init? =>
    refine traced_bind (traced_optionalValue h init?) fun v m₁ _ => ?_
    exact traced_bind (traced_plain (plain_define _ _)) fun _ _ _ => traced_pure _
  | block body => exact traced_runBlock h body
  | branch condition thenPart elsePart? =>
    refine traced_bind (traced_value h condition) fun c m₁ _ => ?_
    cases c.isTruthy with
    | true => exact h.execute thenPart
    | false =>
      cases elsePart? with
      | some elsePart => exact h.execute elsePart
      | none => exact traced_pure _
  | loop condition body => exact traced_loopUpTo h condition body rounds
  | function decl =>
    refine traced_bind (traced_plain (plain_closure decl)) fun f m₁ _ => ?_
    exact traced_bind (traced_plain (plain_define _ _)) fun _ _ _ => traced_pure _
  | ret keyword value? =>
    exact traced_bind (traced_optionalValue h value?) fun _ _ _ => traced_pure _
  | classDecl name refs decls =>
    exact traced_bind (traced_plain (plain_declareClass _ _ _)) fun _ _ _ => traced_pure _
  | importFrom path items =>
    exact traced_bind (traced_importNames h path items) fun _ _ _ => traced_pure _
  | exported inner => exact traced_exportDeclared h inner
  | throw keyword e => exact traced_throwing h keyword e
  | attempt body param? handler? cleanup? => exact traced_attempt h body param? handler? cleanup?

end Parts

end Evaluator

/-- At every depth, a part of a program that closes a slot visits a moment that closes it. -/
theorem tracedUpTo (slot : Slot) (levels : Nat) : TracedUpTo slot levels := by
  induction levels with
  | zero =>
    refine ⟨fun {cause m} e => ?_, fun {cause m} s => ?_⟩
    · exact (Slot.traced_throw .exhausted).of_eq rfl fun o => by
        simp only [evaluatorUnder, evaluateUnder]
    · exact (Slot.traced_throw .exhausted).of_eq rfl fun o => by
        simp only [evaluatorUnder, executeUnder]
  | succ levels ih =>
    refine ⟨fun {cause m} e => ?_, fun {cause m} s => ?_⟩
    · refine (traced_watch (Evaluator.traced_evaluateStep ih e)).of_eq rfl fun o => ?_
      simp only [evaluatorUnder, evaluateUnder]
    · refine (traced_watch (Evaluator.traced_executeStep ih levels s)).of_eq rfl fun o => ?_
      simp only [evaluatorUnder, executeUnder]

end ScriptEngine
