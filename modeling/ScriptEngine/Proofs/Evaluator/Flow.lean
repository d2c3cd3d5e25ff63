import ScriptEngine.Proofs.Evaluator.Statement
import ScriptEngine.Proofs.Scope.Context

/-!
# Only functions return

A statement that stands in no function and has no scope errors never ends by returning a value,
whatever the machine. A `return` is the only statement that ends so by itself, a call turns what
its body returns into a value, and every other construct that hands on how its parts end hands on
the end of statements that stand in no function either.
-/

namespace ScriptEngine

open Scope hiding bind

/-- If the computation gives an answer, the program goes on behind it. -/
def Run.GoesOn (x : Run Flow) : Prop :=
  ∀ m flow m', x m = .ok flow m' → flow = .normal

namespace Run

theorem goesOn_normal : GoesOn (pure .normal) := by
  intro m flow m' h
  cases h
  rfl

theorem goesOn_throw (halt : Halt) : GoesOn (throw halt) := by
  intro m flow m' h
  cases h

/-- A choice whose cases go on goes on. -/
theorem goesOn_either {α : Type} {x : Run α} {f : α → Run Flow} {g : Halt → Run Flow}
    (hf : ∀ a m m', x m = .ok a m' → GoesOn (f a)) (hg : ∀ halt, GoesOn (g halt)) :
    GoesOn (x.either f g) := by
  intro m flow m' h
  unfold either at h
  cases hx : x m with
  | ok a m₁ =>
    rw [hx] at h
    exact hf a m m₁ hx m₁ flow m' h
  | error halt m₁ =>
    rw [hx] at h
    exact hg halt m₁ flow m' h

/-- A sequence goes on if what comes last does. -/
theorem goesOn_bind {α : Type} {x : Run α} {f : α → Run Flow} (hf : ∀ a, GoesOn (f a)) :
    GoesOn (x >>= f) := by
  rw [bind_eq_either]
  exact goesOn_either (fun a _ _ _ => hf a) goesOn_throw

/-- Behind a statement that goes on, only what follows its normal end matters. -/
theorem goesOn_then {x : Run Flow} {f : Flow → Run Flow} (hx : GoesOn x)
    (hf : GoesOn (f .normal)) : GoesOn (x >>= f) := by
  rw [bind_eq_either]
  refine goesOn_either (fun flow m m' h => ?_) goesOn_throw
  rw [hx m flow m' h]
  exact hf

theorem goesOn_inFrame {x : Run Flow} (frame : FrameId) (hx : GoesOn x) :
    GoesOn (inFrame frame x) := by
  intro m flow m' h
  unfold inFrame at h
  dsimp only at h
  split at h
  · next hb =>
    cases h
    exact hx _ _ _ hb
  · cases h

end Run

namespace Evaluator

open Run

/-- Statements that stand in no function go on. -/
def GoesOn (ev : Evaluator) : Prop :=
  ∀ s, Outside s → Run.GoesOn (ev.execute s)

variable {ev : Evaluator}

/-- Statements without a return of their own go on. -/
theorem goesOn_runAll (h : ev.GoesOn) {body : List Stmt} (hbody : ∀ s ∈ body, Outside s) :
    Run.GoesOn (ev.runAll body) := by
  induction body with
  | nil => exact goesOn_normal
  | cons s rest ih =>
    refine goesOn_then (h s (hbody s List.mem_cons_self)) ?_
    exact ih fun s' hs' => hbody s' (List.mem_cons_of_mem s hs')

theorem goesOn_runBlock (h : ev.GoesOn) {body : List Stmt} (hbody : ∀ s ∈ body, Outside s) :
    Run.GoesOn (ev.runBlock body) :=
  goesOn_bind fun frame => goesOn_inFrame frame (goesOn_runAll h hbody)

theorem goesOn_loopUpTo (h : ev.GoesOn) (condition : Expr) {body : Stmt} (hbody : Outside body)
    (rounds : Nat) : Run.GoesOn (ev.loopUpTo condition body rounds) := by
  induction rounds with
  | zero => exact goesOn_throw _
  | succ rounds ih =>
    rw [loopUpTo_succ]
    refine goesOn_bind fun c => ?_
    split
    · exact goesOn_then (h body hbody) ih
    · exact goesOn_normal

/-- A guarded block goes on if it and its handler do. -/
theorem goesOn_runGuarded (h : ev.GoesOn) {body : List Stmt} (param? : Option Token)
    {handler? : Option (List Stmt)} (hbody : ∀ s ∈ body, Outside s)
    (hhandler : ∀ handler, handler? = some handler → ∀ s ∈ handler, Outside s) :
    Run.GoesOn (ev.runGuarded body param? handler?) := by
  rw [runGuarded_eq]
  refine goesOn_either (fun flow m m' hr => ?_) fun halt => ?_
  · rw [goesOn_runBlock h hbody m flow m' hr]
    exact goesOn_normal
  · split
    · next error handler =>
      refine goesOn_bind fun frame => goesOn_inFrame frame ?_
      exact goesOn_runAll h (hhandler handler rfl)
    · exact goesOn_throw _

/-- Cleaning up goes on if the cleanup does and the rest did. -/
theorem goesOn_cleaningUp (h : ev.GoesOn) {cleanup : List Stmt}
    (hcleanup : ∀ s ∈ cleanup, Outside s) {outcome : Run Flow} (ho : Run.GoesOn outcome) :
    Run.GoesOn (cleaningUp ev cleanup outcome) :=
  goesOn_then (goesOn_runBlock h hcleanup) ho

/-- A try statement goes on if its blocks do. -/
theorem goesOn_attempt (h : ev.GoesOn) {body : List Stmt} {param? : Option Token}
    {handler? cleanup? : Option (List Stmt)}
    (hs : Outside (.attempt body param? handler? cleanup?)) :
    Run.GoesOn (ev.attempt body param? handler? cleanup?) := by
  obtain ⟨hbody, hhandler, hcleanup⟩ := hs.attempt
  have hguarded := goesOn_runGuarded h param? hbody hhandler
  cases cleanup? with
  | none => exact hguarded
  | some cleanup =>
    have hclean : ∀ {outcome : Run Flow}, Run.GoesOn outcome →
        Run.GoesOn (cleaningUp ev cleanup outcome) := goesOn_cleaningUp h (hcleanup cleanup rfl)
    rw [attempt_eq]
    refine goesOn_either (fun flow m m' hr => ?_) fun halt => ?_
    · rw [hguarded m flow m' hr]
      exact hclean goesOn_normal
    · split
      · exact goesOn_throw _
      · exact hclean (goesOn_throw _)

/-- An export goes on if its declaration does. -/
theorem goesOn_exportDeclared (h : ev.GoesOn) {inner : Stmt} (hs : Outside inner) :
    Run.GoesOn (ev.exportDeclared inner) := by
  refine goesOn_then (h inner hs) (goesOn_bind fun id => goesOn_bind fun m => ?_)
  dsimp only
  split
  · split
    · exact goesOn_bind fun value => goesOn_bind fun _ => goesOn_normal
    · exact goesOn_normal
  · exact goesOn_normal

/-- One level of execution: a statement goes on if those that it is made of do. -/
theorem goesOn_executeStep (h : ev.GoesOn) (rounds : Nat) {s : Stmt} (hs : Outside s) :
    Run.GoesOn (ev.executeStep rounds s) := by
  cases s with
  | expression e => exact goesOn_bind fun _ => goesOn_normal
  | print e => exact goesOn_bind fun v => goesOn_bind fun _ => goesOn_bind fun _ => goesOn_normal
  | var name init? => exact goesOn_bind fun v => goesOn_bind fun _ => goesOn_normal
  | block body => exact goesOn_runBlock h hs.block
  | branch condition thenPart elsePart? =>
    obtain ⟨hthen, helse⟩ := hs.branch
    refine goesOn_bind fun c => ?_
    split
    · exact h thenPart hthen
    · cases elsePart? with
      | none => exact goesOn_normal
      | some elsePart => exact h elsePart (helse elsePart rfl)
  | loop condition body => exact goesOn_loopUpTo h condition hs.loop rounds
  | function decl => exact goesOn_bind fun f => goesOn_bind fun _ => goesOn_normal
  -- This is the one statement that would return, and the walk over the scopes has refused it.
  | ret keyword value? => exact absurd hs Outside.ret
  | classDecl name refs decls => exact goesOn_bind fun _ => goesOn_normal
  | importFrom path items => exact goesOn_bind fun _ => goesOn_normal
  | exported inner => exact goesOn_exportDeclared h hs.exported
  | throw keyword e => exact goesOn_bind fun v => goesOn_bind fun id => goesOn_throw _
  | attempt body param? handler? cleanup? => exact goesOn_attempt h hs

end Evaluator

/-- At every depth a statement that stands in no function goes on. -/
theorem goesOn_execute (depth : Nat) : (evaluatorUpTo depth).GoesOn := by
  induction depth with
  | zero =>
    intro s _
    show Run.GoesOn (execute 0 s)
    unfold execute
    exact Run.goesOn_throw _
  | succ depth ih =>
    intro s hs
    show Run.GoesOn (execute (depth + 1) s)
    unfold execute
    exact Evaluator.goesOn_executeStep ih depth hs

end ScriptEngine
