import ScriptEngine.Proofs.Evaluator.World

/-!
# Watching a run

A moment of a run is the point at which an expression is about to be evaluated or a statement
about to be executed, in some machine. An observer may break a run off at moments of its choice,
leaving any machine behind. A run that is the same with and without an observer meets none of the
moments at which that observer would break it off; so to say that every moment of a run has a
property is to say that no observer that keeps quiet at such moments can change it.

A moment is `Foreseen` if the part of the program that is about to run was ready to run then and
there. It is then `Located`: the names that it looks up by number are placed where the scopes of
the program say.
-/

namespace ScriptEngine

open Scope

/-- A part of a program that is about to run. -/
inductive Moment where
  | evaluating (e : Expr)
  | executing (s : Stmt)

/-- Breaks a run off at some moments, with some machine. -/
abbrev Observer := Moment → Machine → Option Machine

namespace Observer

/-- The observer that never breaks a run off. -/
def quiet : Observer := fun _ _ => none

/-- A computation that is broken off if the observer says so. -/
def watch {α : Type} (o : Observer) (moment : Moment) (x : Run α) : Run α := fun m =>
  match o moment m with
  | none => x m
  | some m' => .error .exhausted m'

theorem watch_quiet {α : Type} (moment : Moment) (x : Run α) : quiet.watch moment x = x := rfl

end Observer

mutual

/-- Evaluation under an observer. -/
def evaluateUnder (o : Observer) : Nat → Expr → Run Value
  | 0, _ => throw .exhausted
  | depth + 1, e =>
    o.watch (.evaluating e)
      (Evaluator.evaluateStep ⟨evaluateUnder o depth, executeUnder o depth⟩ e)

/-- Execution under an observer. -/
def executeUnder (o : Observer) : Nat → Stmt → Run Flow
  | 0, _ => throw .exhausted
  | depth + 1, s =>
    o.watch (.executing s)
      (Evaluator.executeStep ⟨evaluateUnder o depth, executeUnder o depth⟩ depth s)

end

/-- Evaluation with a bound on the depth, under an observer. -/
def evaluatorUnder (o : Observer) (depth : Nat) : Evaluator :=
  ⟨evaluateUnder o depth, executeUnder o depth⟩

/-- Nothing changes under the quiet observer. -/
theorem evaluatorUnder_quiet (depth : Nat) : evaluatorUnder .quiet depth = evaluatorUpTo depth := by
  -- The two functions call each other, so they are compared together.
  have h : ∀ depth, evaluateUnder .quiet depth = evaluate depth ∧
      executeUnder .quiet depth = execute depth := by
    intro depth
    induction depth with
    | zero => exact ⟨by funext e; simp [evaluateUnder, evaluate],
        by funext s; simp [executeUnder, execute]⟩
    | succ depth ih =>
      refine ⟨?_, ?_⟩
      · funext e
        rw [evaluateUnder, evaluate, ih.1, ih.2, Observer.watch_quiet]
      · funext s
        rw [executeUnder, execute, ih.1, ih.2, Observer.watch_quiet]
  unfold evaluatorUnder evaluatorUpTo
  rw [(h depth).1, (h depth).2]

/-! ## What a moment looks up -/

/-- The uses in the part of a program that is about to run, under some scopes. -/
def Moment.uses (stack : Stack) : Moment → List Use
  | .evaluating e => exprUses stack e
  | .executing s => stmtUses stack s

/-- The marks of the part of a program that is about to run. -/
def Moment.marks : Moment → List Mark
  | .evaluating e => exprMarks e
  | .executing s => stmtMarks s

/-- A name that is looked up by the number of an expression, and what for. -/
structure Lookup where
  id : ExprId
  name : String
  role : Role

/-- The names that a moment looks up: those of a variable that is read or assigned, of `this` and
`super`, and of the superclasses in the head of a class. -/
def Moment.lookups : Moment → List Lookup
  | .evaluating (.reference ref) => [⟨ref.id, ref.name.lexeme, .read⟩]
  | .evaluating (.assign id name _) => [⟨id, name.lexeme, .write⟩]
  | .evaluating (.self id keyword) => [⟨id, keyword.lexeme, .self⟩]
  | .evaluating (.super id keyword _ _) => [⟨id, keyword.lexeme, .super⟩]
  | .executing (.classDecl name refs _) =>
    refs.map fun ref => ⟨ref.id, ref.name.lexeme, .head name.lexeme⟩
  | _ => []

/-- What a machine and a program agree on about a lookup: the use of the program it belongs to and
its recorded distance. That many hops lead to the frame that was made for the scope in which the
name was found, which binds the name if it may be read, and as many hops as there are scopes around
the use lead to the globals of the module. -/
structure Placed (origins : List Origin) (m : Machine) (home : ModuleId) (program : List Stmt)
    (l : Lookup) (u : Use) : Prop where
  use : u ∈ programUses program
  id : u.id = l.id
  name : u.name = l.name
  role : u.role = l.role
  recorded : (m.modules.node home).distances[l.id]? = distance? u.stack.layers l.name
  lands : ∀ d, distance? u.stack.layers l.name = some d →
    ∃ f, m.frames.hops? m.current d = some f ∧ origins[f]? = some ⟨home, u.stack.sites.drop d⟩ ∧
      (u.ready? = some true → m.frames.binds f l.name = true)
  leaves : m.frames.hops? m.current u.stack.sites.length = some (m.modules.node home).globals

/-- A moment runs in the frames of some scopes: its uses under them are uses of accepted programs,
the frames from the current one outward are those that were made for the scopes and bind what may
be read there, behind them stand the globals of the module, and every name that is looked up is
placed. -/
structure Located (origins : List Origin) (sources : String → Prop) (moment : Moment) (m : Machine)
    (home : ModuleId) (stack : Stack) : Prop where
  active : m.active? = some home
  known : ∀ u ∈ moment.uses stack, ∃ program, Accepted sources program ∧ u ∈ programUses program
  inside : ∀ n < stack.sites.length, ∃ f, m.frames.hops? m.current n = some f ∧
    origins[f]? = some ⟨home, stack.sites.drop n⟩ ∧
      ∀ layer, stack.layers[n]? = some layer →
        ∀ name, layer.lookup name = some true → m.frames.binds f name = true
  outside : m.frames.hops? m.current stack.sites.length = some (m.modules.node home).globals
  placed : ∀ l ∈ moment.lookups, ∃ program, Accepted sources program ∧
    ∃ u ∈ moment.uses stack, Placed origins m home program l u

/-- What is placed stays so in a world with more frames. -/
theorem Placed.mono {origins origins' : List Origin} {m : Machine} {home : ModuleId}
    {program : List Stmt} {l : Lookup} {u : Use} (h : Placed origins m home program l u)
    (ho : ∀ (f : FrameId) o, origins[f]? = some o → origins'[f]? = some o) :
    Placed origins' m home program l u :=
  { h with
    lands := fun d hd => by
      obtain ⟨f, hf, hmade, hbound⟩ := h.lands d hd
      exact ⟨f, hf, ho f _ hmade, hbound⟩ }

/-- A moment that is located stays so in a world with more frames. -/
theorem Located.mono {origins origins' : List Origin} {sources : String → Prop} {moment : Moment}
    {m : Machine} {home : ModuleId} {stack : Stack}
    (h : Located origins sources moment m home stack)
    (ho : ∀ (f : FrameId) o, origins[f]? = some o → origins'[f]? = some o) :
    Located origins' sources moment m home stack :=
  { h with
    inside := fun n hn => by
      obtain ⟨f, hf, hmade, hbound⟩ := h.inside n hn
      exact ⟨f, hf, ho f _ hmade, hbound⟩
    placed := fun l hl => by
      obtain ⟨program, ha, u, hu, hp⟩ := h.placed l hl
      exact ⟨program, ha, u, hu, hp.mono ho⟩ }

/-! ## Moments that are foreseen -/

/-- The part of a program that is about to run was ready to do so in a world that has at most grown
since. -/
def Foreseen (w : World) (moment : Moment) (m : Machine) : Prop :=
  ∃ w₀ : World, (∀ (f : FrameId) o, w₀.origins[f]? = some o → w.origins[f]? = some o) ∧
    w₀.sources = w.sources ∧
      ∃ home stack, Ready 0 w₀ m home stack (moment.uses stack) moment.marks

/-- The observer keeps quiet at moments that are foreseen. -/
def Observer.SilentOn (o : Observer) (w : World) : Prop :=
  ∀ moment m, Foreseen w moment m → o moment m = none

/-! ## Chains place lookups -/

/-- Hop by hop a chain goes through frames that were made for its scopes. -/
theorem Chain.hops {w : World} {m : Machine} {home : ModuleId} {stack : Stack} :
    ∀ {f : FrameId}, Chain w m home f stack →
      (∀ n < stack.sites.length, ∃ g, m.frames.hops? f n = some g ∧
        w.origins[g]? = some ⟨home, stack.sites.drop n⟩ ∧
        ∀ layer, stack.layers[n]? = some layer →
          ∀ name, layer.lookup name = some true → m.frames.binds g name = true) ∧
      m.frames.hops? f stack.sites.length = some (m.modules.node home).globals := by
  induction stack with
  | nil =>
    intro f h
    refine ⟨fun n hn => absurd hn (by simp), ?_⟩
    rw [h.2]
    rfl
  | cons scope outer ih =>
    obtain ⟨site, layer⟩ := scope
    intro f h
    obtain ⟨ho, hb, g, hg, hc⟩ := h
    obtain ⟨hin, hout⟩ := ih hc
    -- One hop from `f` leads to `g`, where the rest of the chain begins.
    have hstep : ∀ n, m.frames.hops? f (n + 1) = m.frames.hops? g n := by
      intro n
      rw [Frames.hops?, hg, Option.bind_some]
    refine ⟨fun n hn => ?_, ?_⟩
    · cases n with
      | zero =>
        refine ⟨f, rfl, ho, fun layer' hl name hname => hb name ?_⟩
        simp only [Stack.layers_cons, List.getElem?_cons_zero, Option.some.injEq] at hl
        exact hl ▸ hname
      | succ n =>
        obtain ⟨g', hg', ho', hb'⟩ := hin n (by simpa using hn)
        refine ⟨g', (hstep n).trans hg', by simpa using ho', fun layer' hl => hb' layer' ?_⟩
        simpa using hl
    · rw [Stack.sites_cons, List.length_cons, hstep]
      exact hout

end ScriptEngine
