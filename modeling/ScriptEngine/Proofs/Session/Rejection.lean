import ScriptEngine.Proofs.Session.Failure
import ScriptEngine.Proofs.Session.Status

/-!
# Steps that are rejected

A step is rejected before any statement is executed when its file cannot be read, when its source
does not compile, or when the scopes of its statements are not in order. The three come at different
depths: the first before the session is touched, the second before the machine runs anything, the
third when the module that would run has been found or made. What each of them leaves is said in
full by `rejected_steps_change_nothing`.
-/

namespace ScriptEngine

/-- How far a source comes before its statements are executed: it has lexical or syntax errors, or
scope errors, or none of them. -/
inductive Verdict where
  | illFormed | illScoped | accepted
deriving DecidableEq

/-- The verdict on a source whose expressions are numbered from `first` on. -/
def verdict (first : ExprId) (source : String) : Verdict :=
  match Token.scan source with
  | .error _ => .illFormed
  | .ok tokens =>
    match (parse first tokens).result with
    | .error _ => .illFormed
    | .ok statements =>
      match Scope.resolve statements with
      | .error _ => .illScoped
      | .ok _ => .accepted

/-- The machine is the same except for the diagnostics and the numbers that were given out. -/
def Machine.Untouched (m m' : Machine) : Prop :=
  ∃ reporter nextExpr, m' = { m with reporter := reporter, nextExpr := nextExpr }

/-- The module is at a path and nothing is known of it: it binds and exports no name, it imports
nothing and no other module imported it. -/
structure Machine.IsBlank (m : Machine) (path : Path) (id : ModuleId) : Prop where
  node : ∃ globals exports, m.modules.node id = ⟨path, globals, exports, ∅, none, [], .loaded⟩
  globals : m.frames.frame (m.modules.node id).globals = ⟨[], some Machine.builtins⟩
  exports : m.frames.frame (m.modules.node id).exports = ⟨[], none⟩

/-- The machine is the same except for the diagnostics and the module at a path, which counts as
loaded. If there was none, there is one now, and it is blank. -/
structure Machine.OnlyRoot (path : Path) (m m' : Machine) : Prop where
  store : m'.store = m.store
  files : m'.files = m.files
  frames : ∀ f < m.frames.frames.size, m'.frames.frame f = m.frames.frame f
  nodes : ∀ id < m.modules.size, m'.modules.node id =
    if m.modules.lookup? path = some id then { m.modules.node id with state := .loaded }
    else m.modules.node id
  made : (∃ root, m.modules.lookup? path = some root ∧ m'.modules.size = m.modules.size ∧
      m'.frames = m.frames) ∨
    m.modules.lookup? path = none ∧ m'.modules.size = m.modules.size + 1 ∧
      m'.IsBlank path m.modules.size
  active : m'.active? = none
  current : m'.current = Machine.builtins

namespace Evaluator

open Run

/-! ## Sources that do not compile -/

/-- A source with lexical or syntax errors does not compile. -/
theorem compile?_illFormed {source : String} {m : Machine}
    (h : verdict m.nextExpr source = .illFormed) :
    ∃ m', compile? source m = .ok none m' ∧ m.Untouched m' := by
  unfold verdict at h
  split at h
  · next errors hscan =>
    unfold compile?
    rw [hscan]
    exact ⟨_, rfl, _, m.nextExpr, rfl⟩
  · next tokens hscan =>
    rw [compile?_eq hscan]
    split at h
    · next errors hparse =>
      rw [hparse]
      exact ⟨_, rfl, _, _, rfl⟩
    · split at h <;> cases h

/-- A source with scope errors compiles to the statements that have them. -/
theorem compile?_illScoped {source : String} {m : Machine}
    (h : verdict m.nextExpr source = .illScoped) :
    ∃ statements errors nextExpr, Scope.resolve statements = .error errors ∧
      compile? source m = .ok (some statements) { m with nextExpr := nextExpr } := by
  unfold verdict at h
  split at h
  · cases h
  · next tokens hscan =>
    rw [compile?_eq hscan]
    split at h
    · cases h
    · next statements hparse =>
      rw [hparse]
      split at h
      · next errors hresolve => exact ⟨statements, errors, _, hresolve, rfl⟩
      · cases h

/-! ## Statements whose scopes are not in order -/

/-- A program with scope errors reports them and executes nothing. -/
theorem runModule_refused (ev : Evaluator) {statements : List Stmt} {errors : List ScopeError}
    (h : Scope.resolve statements = .error errors) (id : ModuleId) (m : Machine) :
    ev.runModule id statements m = .ok () (closeModule id { m with
      active? := some id, current := (m.modules.node id).globals,
      reporter := errors.foldl Reporter.scope m.reporter }) := by
  rcases runModule_cases id statements m with ⟨errors', hresolve, heq⟩ | ⟨_, hresolve, -⟩
  · obtain rfl := Except.error.inj (h.symm.trans hresolve)
    exact heq ev
  · cases h.symm.trans hresolve

/-- A new module has two empty frames of its own, and the others are as before. -/
theorem frame_createModule (m : Machine) (parent? : Option ModuleId) (path : Path) (f : FrameId) :
    (m.createModule parent? path).2.frames.frame f =
      if f = m.frames.frames.size + 1 then ⟨[], none⟩
      else if f = m.frames.frames.size then ⟨[], some Machine.builtins⟩
      else m.frames.frame f := by
  show ((m.frames.add ⟨[], some Machine.builtins⟩).add ⟨[], none⟩).frame f = _
  rw [Frames.frame_add, Frames.frame_add,
    show (m.frames.add ⟨[], some Machine.builtins⟩).frames.size
    = m.frames.frames.size + 1 from Array.size_push _]

/-- A root that has just been made is blank when it is closed. -/
theorem isBlank_closeModule (m : Machine) (path : Path) :
    (closeModule m.modules.size (m.createModule none path).2).IsBlank path m.modules.size := by
  have hsize : (m.createModule none path).2.modules.size = m.modules.size + 1 :=
    ModuleTree.size_create _ _ _ _ _
  have hnode : (closeModule m.modules.size (m.createModule none path).2).modules.node
      m.modules.size = ⟨path, m.frames.frames.size, m.frames.frames.size + 1, ∅, none, [],
        .loaded⟩ := by
    show ((m.createModule none path).2.modules.modify m.modules.size _).node m.modules.size = _
    have hnew : (m.createModule none path).2.modules.node m.modules.size = _ :=
      ModuleTree.node_create_new
    rw [ModuleTree.node_modify, if_pos ⟨rfl, hsize ▸ Nat.lt_succ_self _⟩, hnew]
    exact congrArg (fun f => ModuleNode.mk path _ f ∅ none [] .loaded) (Array.size_push _)
  have hframe := frame_createModule m none path
  refine ⟨⟨_, _, hnode⟩, ?_, ?_⟩
  · rw [hnode]
    refine (hframe _).trans ?_
    rw [if_neg (Nat.ne_of_lt (Nat.lt_succ_self _)), if_pos rfl]
  · rw [hnode]
    refine (hframe _).trans ?_
    rw [if_pos rfl]

/-- Of a root whose scopes are refused nothing is left but a module that is blank. -/
theorem runRoot_refused (ev : Evaluator) {statements : List Stmt} {errors : List ScopeError}
    (h : Scope.resolve statements = .error errors) (path : Path) (m : Machine) :
    ∃ m', ev.runRoot path statements m = .ok () m' ∧
      m'.reporter = errors.foldl Reporter.scope m.reporter ∧ m.OnlyRoot path m' := by
  -- The statements of the module that was found or made are not executed.
  have hrun : ∀ (root : ModuleId) (m : Machine), ((do
      ev.runModule root statements
      modify fun m => { m with current := Machine.builtins }) : Run Unit) m =
        .ok () { closeModule root m with
          current := Machine.builtins, reporter := errors.foldl Reporter.scope m.reporter } := by
    intro root m
    show EStateM.bind (ev.runModule root statements) _ m = _
    rw [EStateM.bind, runModule_refused ev h]
    rfl
  rw [runRoot_eq]
  cases hlookup : m.modules.lookup? path with
  | some root =>
    refine ⟨_, hrun root m, rfl, rfl, rfl, fun _ _ => rfl, fun id hid => ?_,
      Or.inl ⟨root, hlookup, ModuleTree.size_modify _ _ _, rfl⟩, rfl, rfl⟩
    show (m.modules.modify root _).node id = _
    rw [ModuleTree.node_modify, hlookup]
    by_cases heq : id = root
    · subst heq
      rw [if_pos ⟨rfl, hid⟩, if_pos rfl]
    · rw [if_neg fun h => heq h.1, if_neg fun h => heq (Option.some.inj h).symm]
  | none =>
    have hsize : (m.createModule none path).2.modules.size = m.modules.size + 1 :=
      ModuleTree.size_create _ _ _ _ _
    refine ⟨_, hrun m.modules.size (m.createModule none path).2, rfl, rfl, rfl, fun f hf => ?_,
      fun id hid => ?_, Or.inr ⟨hlookup, (ModuleTree.size_modify _ _ _).trans hsize, ?_⟩, rfl, rfl⟩
    · refine (frame_createModule m none path f).trans ?_
      rw [if_neg (Nat.ne_of_lt (Nat.lt_succ_of_lt hf)), if_neg (Nat.ne_of_lt hf)]
    · show ((m.createModule none path).2.modules.modify m.modules.size _).node id = _
      rw [ModuleTree.node_modify, if_neg fun h => Nat.ne_of_lt hid h.1, hlookup, if_neg (by simp)]
      exact ModuleTree.node_create_of_lt hid
    · obtain ⟨hnode, hglobals, hexports⟩ := isBlank_closeModule m path
      exact ⟨hnode, hglobals, hexports⟩

end Evaluator

namespace Session

/-- A step that is rejected leaves the program as it is. If its file cannot be read, the whole
session is the same. If its source does not compile, the machine is the same except for the
diagnostics and the numbers of expressions. If the scopes of its statements are refused, the
module that would have run counts as loaded, and it is blank if it was not there. -/
theorem rejected_steps_change_nothing (depth : Nat) (s : Session) (step : Step) :
    (∀ fault, s.opened step = .error fault → s.take depth step = (.fileFailed fault, s)) ∧
    ∀ text s', s.opened step = .ok (text, s') →
      (verdict s.machine.nextExpr text = .illFormed → ∃ m, s.machine.Untouched m ∧
        s.take depth step = (.compileFailed, { s' with machine := m })) ∧
      (verdict s.machine.nextExpr text = .illScoped → ∃ m, s.machine.OnlyRoot s'.root m ∧
        s.take depth step = (.compileFailed, { s' with machine := m })) := by
  refine ⟨fun fault hopened => take_unreadable depth hopened, fun text s' hopened => ?_⟩
  have hmachine := opened_machine hopened
  rw [take_opened depth hopened, hmachine]
  constructor
  · intro hverdict
    obtain ⟨m, hcompile, reporter, nextExpr, rfl⟩ := Evaluator.compile?_illFormed
      (m := { s.machine with reporter := s.machine.reporter.reset }) hverdict
    rw [runSource_none hcompile]
    exact ⟨_, ⟨reporter, nextExpr, rfl⟩, rfl⟩
  · intro hverdict
    obtain ⟨statements, errors, nextExpr, hresolve, hcompile⟩ := Evaluator.compile?_illScoped
      (m := { s.machine with reporter := s.machine.reporter.reset }) hverdict
    obtain ⟨m, hroot, hreporter, honly⟩ := Evaluator.runRoot_refused (evaluatorUpTo depth) hresolve
      s'.root { s.machine with reporter := s.machine.reporter.reset, nextExpr := nextExpr }
    have hbind : (do (evaluatorUpTo depth).runRoot s'.root statements; pure true : Run Bool)
        { s.machine with reporter := s.machine.reporter.reset, nextExpr := nextExpr } =
          .ok true m := by
      show EStateM.bind ((evaluatorUpTo depth).runRoot s'.root statements) _ _ = _
      rw [EStateM.bind, hroot]
      rfl
    have hstatus : reportedStatus m.reporter = .compileFailed := by
      have htells := tells_reportedStatus (r := s.machine.reporter.reset) rfl (errors.map .scope)
      rw [List.foldl_map] at htells
      rw [hreporter]
      refine htells.compileFailed.mpr ⟨?_, by simp [Report.isUncaught]⟩
      simpa using Scope.resolve_error hresolve
    rw [runSource_some hcompile, hbind]
    refine ⟨m, ⟨honly.store, honly.files, honly.frames, honly.nodes, honly.made, honly.active,
      honly.current⟩, ?_⟩
    rw [left, hstatus]

/-- A file that is not there, a source with a lexical error, and one with a scope error. -/
theorem rejected_steps_of_start :
    (start ⟨[], []⟩ 0).take 5 (.file ⟨"gone.sss"⟩) =
      (.fileFailed .notFound, start ⟨[], []⟩ 0) ∧
    (∃ m, (start ⟨[], []⟩ 0).machine.Untouched m ∧ (start ⟨[], []⟩ 0).take 5 (.source "@") =
      (.compileFailed, { start ⟨[], []⟩ 0 with machine := m })) ∧
    ∃ m, (start ⟨[], []⟩ 0).machine.OnlyRoot (start ⟨[], []⟩ 0).root m ∧
      (start ⟨[], []⟩ 0).take 5 (.source "return 1;") =
        (.compileFailed, { start ⟨[], []⟩ 0 with machine := m }) :=
  ⟨(rejected_steps_change_nothing 5 (start ⟨[], []⟩ 0) (.file ⟨"gone.sss"⟩)).1 _ rfl,
    ((rejected_steps_change_nothing 5 (start ⟨[], []⟩ 0) (.source "@")).2 _ _ rfl).1
      (by decide +kernel),
    ((rejected_steps_change_nothing 5 (start ⟨[], []⟩ 0) (.source "return 1;")).2 _ _ rfl).2
      (by decide +kernel)⟩

end Session

end ScriptEngine
