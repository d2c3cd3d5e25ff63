import ScriptEngine.Session
import ScriptEngine.Proofs.Evaluator.Importing

/-!
# Every computation comes back to its place

The place of a machine is the module whose code is running and the frame it runs in. Blocks,
calls, property reads through an import and nested loads all leave it, and each of them restores
its own half: `inFrame` the frame, `inModule` the module, `runImported` both at once.

`Run.Returns` says that a computation ends where it began, whether it gives a value, halts with a
runtime error or throws. Only a computation that used up its depth is excepted: it was broken off
and reports nothing. The property is closed under everything that the evaluator is composed of and
under imports, so one induction on the depth gives the two halves of `evaluation_keeps_place`: a
part of a program comes back to the place it started from, and a root module that has run leaves no
module active and the frame of the built-ins current.
-/

namespace ScriptEngine

/-- The two machines run the same module in the same frame. -/
def Machine.SamePlace (m m' : Machine) : Prop :=
  m'.active? = m.active? ∧ m'.current = m.current

theorem Machine.SamePlace.refl (m : Machine) : m.SamePlace m := ⟨rfl, rfl⟩

theorem Machine.SamePlace.trans {m₁ m₂ m₃ : Machine} (h₁ : m₁.SamePlace m₂)
    (h₂ : m₂.SamePlace m₃) : m₁.SamePlace m₃ :=
  ⟨h₂.1.trans h₁.1, h₂.2.trans h₁.2⟩

namespace Run

/-- An outcome in the place of `m`, unless it was broken off. -/
def EndsAt {α : Type} (m : Machine) : EStateM.Result Halt Machine α → Prop
  | .ok _ m' => m.SamePlace m'
  | .error .exhausted _ => True
  | .error _ m' => m.SamePlace m'

/-- The computation ends in the place where it began, however it ends. -/
def Returns {α : Type} (x : Run α) : Prop :=
  ∀ m, EndsAt m (x m)

/-- What comes back to a place comes back to every machine in that place. -/
theorem EndsAt.trans {α : Type} {m m' : Machine} {r : EStateM.Result Halt Machine α}
    (h : m.SamePlace m') (hr : EndsAt m' r) : EndsAt m r := by
  cases r with
  | ok a m'' => exact h.trans hr
  | error halt m'' =>
    cases halt with
    | exhausted => trivial
    | failed e => exact h.trans hr
    | thrown id => exact h.trans hr

/-- Where a halt ends does not depend on what kind of value was wanted. -/
theorem EndsAt.halted {α β : Type} {m m' : Machine} {halt : Halt}
    (h : EndsAt m (.error halt m' : EStateM.Result Halt Machine α)) :
    EndsAt m (.error halt m' : EStateM.Result Halt Machine β) := by
  cases halt with
  | exhausted => trivial
  | failed e => exact h
  | thrown id => exact h

/-! ## The building blocks -/

/-- A computation on the data of the program does not move at all. -/
theorem returns_local {α : Type} {x : Run α} (h : x.Local) : Returns x := by
  intro m
  obtain ⟨store, frames, hleft, -⟩ := h m
  have hplace : m.SamePlace (left (x m)) := by
    rw [hleft]
    exact Machine.SamePlace.refl m
  cases hr : x m with
  | ok a m' =>
    rw [hr] at hplace
    exact hplace
  | error halt m' =>
    rw [hr] at hplace
    cases halt with
    | exhausted => trivial
    | failed e => exact hplace
    | thrown id => exact hplace

/-- A choice comes back if its cases do and what is broken off stays so. -/
theorem returns_either {α β : Type} {x : Run α} {f : α → Run β} {g : Halt → Run β}
    (hx : Returns x) (hf : ∀ a, Returns (f a)) (hg : ∀ halt, halt ≠ .exhausted → Returns (g halt))
    (hexhausted : g .exhausted = throw .exhausted) : Returns (x.either f g) := by
  intro m
  have h := hx m
  unfold either
  cases hr : x m with
  | ok a m' =>
    rw [hr] at h
    exact EndsAt.trans h (hf a m')
  | error halt m' =>
    rw [hr] at h
    cases halt with
    | exhausted =>
      dsimp only
      rw [hexhausted]
      trivial
    | failed e => exact EndsAt.trans h (hg (.failed e) (by simp) m')
    | thrown id => exact EndsAt.trans h (hg (.thrown id) (by simp) m')

/-- A sequence comes back if its parts do. -/
theorem returns_bind {α β : Type} {x : Run α} {f : α → Run β} (hx : Returns x)
    (hf : ∀ a, Returns (f a)) : Returns (x >>= f) := by
  rw [bind_eq_either]
  exact returns_either hx hf (fun halt _ => returns_local (plain_throw halt).local) rfl

/-- The body may end anywhere in its own frame: the old frame is put back. -/
theorem returns_inFrame {α : Type} {body : Run α} (frame : FrameId) (h : Returns body) :
    Returns (inFrame frame body) := by
  intro m
  have hb := h { m with current := frame }
  unfold inFrame
  dsimp only
  cases hr : body { m with current := frame } with
  | ok a m' =>
    rw [hr] at hb
    -- The module is the one the body has kept, the frame the one that is put back.
    exact ⟨hb.1, rfl⟩
  | error halt m' =>
    rw [hr] at hb
    cases halt with
    | exhausted => trivial
    | failed e => exact ⟨hb.1, rfl⟩
    | thrown id => exact ⟨hb.1, rfl⟩

/-- The same for the module. -/
theorem returns_inModule {α : Type} {body : Run α} (id : ModuleId) (h : Returns body) :
    Returns (inModule id body) := by
  intro m
  have hb := h { m with active? := some id }
  unfold inModule
  dsimp only
  cases hr : body { m with active? := some id } with
  | ok a m' =>
    rw [hr] at hb
    exact ⟨rfl, hb.2⟩
  | error halt m' =>
    rw [hr] at hb
    cases halt with
    | exhausted => trivial
    | failed e => exact ⟨rfl, hb.2⟩
    | thrown id => exact ⟨rfl, hb.2⟩

end Run

/-! ## Parts of a program -/

namespace Evaluator

open Run

/-- The evaluation of every part of a program comes back. -/
structure Returns (ev : Evaluator) : Prop where
  evaluate : ∀ e, Run.Returns (ev.evaluate e)
  execute : ∀ s, Run.Returns (ev.execute s)

variable {ev : Evaluator}

/-- Whatever is composed of parts that come back comes back. -/
theorem Composed.returns {α : Type} {x : Evaluator → Run α} (hx : Composed x) (h : ev.Returns) :
    Run.Returns (x ev) := by
  induction hx with
  | basic hlocal => exact returns_local hlocal
  | evaluate e => exact h.evaluate e
  | execute s => exact h.execute s
  | either _ _ _ hexhausted ihx ihf ihg => exact returns_either ihx ihf ihg (hexhausted ev)
  | inNewFrame enclosing bindings _ ih =>
    exact returns_bind (returns_local (plain_newFrame _ _).local) fun frame =>
      returns_inFrame frame ih
  | inModule id _ ih => exact returns_inModule id ih

/-! ## Modules

Running a module changes the place on purpose, so these computations do not come back one by one.
What holds of them is that only exhaustion stops them: whatever halts the statements of a module
is reported, and the run goes on behind them. -/

/-- An outcome that exhaustion alone can have kept from giving a value; the machine that the value
leaves behind has a property. -/
def Settled {α : Type} (P : Machine → Prop) : EStateM.Result Halt Machine α → Prop
  | .ok _ m => P m
  | .error halt _ => halt = .exhausted

/-- What is left behind need not have any property. -/
theorem Settled.weaken {α : Type} {P : Machine → Prop} {r : EStateM.Result Halt Machine α}
    (h : Settled P r) : Settled (fun _ => True) r := by
  cases r with
  | ok a m => trivial
  | error halt m => exact h

/-- A sequence is halted by exhaustion alone if its parts are. -/
theorem settled_bind {α β : Type} {P Q : Machine → Prop} {x : Run α} {f : α → Run β}
    {m : Machine} (hx : Settled Q (x m)) (hf : ∀ a m', Q m' → Settled P (f a m')) :
    Settled P ((x >>= f) m) := by
  show Settled P (EStateM.bind x f m)
  unfold EStateM.bind
  cases hr : x m with
  | ok a m' =>
    rw [hr] at hx
    exact hf a m' hx
  | error halt m' =>
    rw [hr] at hx
    exact hx

/-- A change of the machine is never halted. -/
theorem settled_modify {P : Machine → Prop} {f : Machine → Machine} {m : Machine}
    (h : P (f m)) : Settled P ((modify f : Run Unit) m) :=
  h

/-- Statements of a module are halted by exhaustion alone, since any other halt is reported. -/
theorem settled_runTopLevel (statements : List Stmt) (m : Machine) :
    Settled (fun _ => True) (ev.runTopLevel statements m) := by
  induction statements generalizing m with
  | nil => trivial
  | cons s rest ih =>
    unfold runTopLevel
    split
    -- The loop goes on after any flow; only exhaustion leaves it, and every other halt is reported.
    next flow m₁ hr => exact ih m₁
    next m₁ hr => rfl
    next e m₁ hr _ => trivial

/-- A module that was run leaves no module active. -/
theorem settled_runModule (id : ModuleId) (statements : List Stmt) (m : Machine) :
    Settled (fun m' => m'.active? = none) (ev.runModule id statements m) := by
  refine settled_bind (settled_modify trivial) fun _ m₁ (_ : True) => ?_
  dsimp only
  cases Scope.resolve statements with
  | ok distances =>
    refine settled_bind (settled_modify trivial) fun _ m₂ (_ : True) => ?_
    exact settled_bind (settled_runTopLevel statements m₂) fun _ m₃ _ => settled_modify rfl
  | error errors =>
    exact settled_bind (settled_modify trivial) fun _ m₂ (_ : True) => settled_modify rfl

/-- A root module that has run leaves no module active and the frame of the built-ins current,
and nothing that halts its statements stops it. -/
theorem settled_runRoot (path : Path) (statements : List Stmt) (m : Machine) :
    Settled (fun m' => m'.active? = none ∧ m'.current = Machine.builtins)
      (ev.runRoot path statements m) := by
  have hrun : ∀ root m₁, Settled (fun m' => m'.active? = none ∧ m'.current = Machine.builtins)
      ((do
        ev.runModule root statements
        modify fun m => { m with current := Machine.builtins } : Run Unit) m₁) := fun root m₁ =>
    settled_bind (settled_runModule root statements m₁) fun _ m₂ h => settled_modify ⟨h, rfl⟩
  rcases runRoot_cases path statements m with ⟨root, -, heq⟩ | heq
  · rw [heq]
    exact hrun root m
  · rw [heq]
    exact hrun _ _

/-- A load that is settled comes back when the last thing it does is to restore the place. -/
theorem endsAt_restore {α : Type} {x : Run α} {f : Machine → Machine} {m₀ m : Machine}
    (hx : Settled (fun _ => True) (x m)) (hf : ∀ m', m₀.SamePlace (f m')) :
    EndsAt m₀ ((do let _ ← x; modify f : Run Unit) m) := by
  show EndsAt m₀ (EStateM.bind x _ m)
  unfold EStateM.bind
  cases hr : x m with
  | ok a m' => exact hf m'
  | error halt m' =>
    rw [hr] at hx
    rw [show halt = .exhausted from hx]
    trivial

/-- An imported module comes back to its importer. -/
theorem endsAt_runImported {m : Machine} {importer : ModuleId} (h : m.active? = some importer)
    (path : Path) (statements : List Stmt) :
    EndsAt m (ev.runImported importer path statements m) :=
  endsAt_restore (settled_runModule _ _ _).weaken fun _ => ⟨h.symm, rfl⟩

/-- Sequencing where only the second part comes back from anywhere. -/
theorem endsAt_bind {α β : Type} {x : Run α} {f : α → Run β} {m : Machine} (hx : EndsAt m (x m))
    (hf : ∀ a, Run.Returns (f a)) : EndsAt m ((x >>= f) m) := by
  show EndsAt m (EStateM.bind x f m)
  unfold EStateM.bind
  cases hr : x m with
  | ok a m' =>
    rw [hr] at hx
    exact EndsAt.trans hx (hf a m')
  | error halt m' =>
    rw [hr] at hx
    exact hx.halted

theorem endsAt_loadModule {m : Machine} {importer : ModuleId} (h : m.active? = some importer)
    (path : Path) (token : Token) : EndsAt m (ev.loadModule importer path token m) := by
  rcases loadModule_cases importer path token m with ⟨existing, -, hload⟩ |
    ⟨-, reporter, nextExpr, -, ⟨e, hload⟩ | ⟨source, statements, -, -, hload⟩⟩
  -- A module that is found is not run again.
  · rw [hload]
    exact Machine.SamePlace.refl m
  · rw [hload]
    exact Machine.SamePlace.refl m
  -- The place is restored from `importer`, which is still the active module by then.
  · rw [hload]
    exact endsAt_runImported (m := { m with reporter := reporter, nextExpr := nextExpr }) h path
      statements

/-- An import starts from the active module, so the load behind it comes back to that module. -/
theorem returns_importNames (token : Token) (items : List ImportItem) :
    Run.Returns (ev.importNames token items) := by
  intro m
  rcases importNames_cases token items m with ⟨e, -, himport⟩ | ⟨importer, hactive, -, himport⟩
  · rw [himport]
    exact Machine.SamePlace.refl m
  · rw [himport]
    exact endsAt_bind (endsAt_loadModule hactive _ token) fun _ =>
      returns_local (plain_bindLoaded _ _ _ _).local

/-- One level of evaluation comes back if the evaluation of the parts does. -/
theorem returns_evaluateStep (h : ev.Returns) (e : Expr) : Run.Returns (ev.evaluateStep e) :=
  (composed_evaluateStep e).returns h

/-- One level of execution comes back if the evaluation of the parts does. -/
theorem returns_executeStep (h : ev.Returns) (rounds : Nat) (s : Stmt) :
    Run.Returns (ev.executeStep rounds s) := by
  cases s with
  | importFrom path items =>
    exact returns_bind (returns_importNames _ _) fun _ => returns_local (plain_pure _).local
  | _ => exact (composed_executeStep rounds (by simp)).returns h

end Evaluator

/-! ## The whole evaluator -/

/-- Every expression and every statement comes back, at every depth. -/
theorem returns_evaluatorUpTo (depth : Nat) : (evaluatorUpTo depth).Returns := by
  induction depth with
  | zero =>
    refine ⟨fun e => ?_, fun s => ?_⟩
    · show Run.Returns (evaluate 0 e)
      unfold evaluate
      exact Run.returns_local (Run.plain_throw _).local
    · show Run.Returns (execute 0 s)
      unfold execute
      exact Run.returns_local (Run.plain_throw _).local
  | succ depth ih =>
    refine ⟨fun e => ?_, fun s => ?_⟩
    · show Run.Returns (evaluate (depth + 1) e)
      unfold evaluate
      exact Evaluator.returns_evaluateStep ih e
    · show Run.Returns (execute (depth + 1) s)
      unfold execute
      exact Evaluator.returns_executeStep ih depth s

/-- **Evaluation keeps its place.** Whatever an expression or a statement comes to (a value, a
return, a throw or a runtime error), the module and the frame afterwards are those it began in;
and a root module that has run, whatever happened inside, leaves no module active and the frame
of the built-ins current. -/
theorem evaluation_keeps_place (depth : Nat) :
    (∀ e, Run.Returns (evaluate depth e)) ∧
    (∀ s, Run.Returns (execute depth s)) ∧
    ∀ path statements m,
      match (evaluatorUpTo depth).runRoot path statements m with
      | .ok _ m' => m'.active? = none ∧ m'.current = Machine.builtins
      | .error halt _ => halt = .exhausted := by
  refine ⟨(returns_evaluatorUpTo depth).evaluate, (returns_evaluatorUpTo depth).execute, ?_⟩
  intro path statements m
  have h : Evaluator.Settled _ ((evaluatorUpTo depth).runRoot path statements m) :=
    Evaluator.settled_runRoot path statements m
  cases hr : (evaluatorUpTo depth).runRoot path statements m with
  | ok u m' =>
    rw [hr] at h
    exact h
  | error halt m' =>
    rw [hr] at h
    exact h

end ScriptEngine
