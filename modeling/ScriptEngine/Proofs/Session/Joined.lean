import ScriptEngine.Proofs.Evaluator.Displaced
import ScriptEngine.Proofs.Session.Importless
import ScriptEngine.Proofs.Token.Joining

/-!
# Two sources in one step

Instead of running two sources one after the other, a session may run the second one below the first
in a single step. Where nothing is imported and the first source reports nothing, that makes no
difference but in the lines that diagnostics name (`joined_sources_run_alike`).

Both ways, the statements of the first source are all executed, in twins that know the distances of
that source. Then the statements of the second one run, in kindred machines: between the two
sources, a step closes the root module and the next one opens it again, which changes nothing that a
program could see.
-/

namespace ScriptEngine

open Evaluator

/-! ## Statements that are all executed -/

namespace Evaluator

variable {σ : Setting} {m m' n : Machine} {ev ev' : Evaluator}

/-- If all statements of one run are executed, then those of the other one are as well. -/
theorem Completes.twin (hev : ev.Alike σ ev') {p : List Stmt} (hc : ev.Completes p m m')
    (hp : everyStmts σ.part p) (h : Twins σ m n) :
    ∃ n', ev'.Completes (σ.relabel.stmts p) n n' ∧ Twins σ m' n' := by
  induction hc generalizing n with
  | nil m => exact ⟨n, .nil n, h⟩
  | cons first others ih =>
    have hmeets := hev.execute h hp.1
    unfold Meets at hmeets
    rw [first] at hmeets
    obtain ⟨n₁, hfirst, h₁, -, -⟩ := hmeets
    obtain ⟨n', hothers, h'⟩ := ih hp.2 h₁
    exact ⟨n', .cons hfirst hothers, h'⟩

/-- What stands behind statements that are all executed runs where they have led. -/
theorem Completes.runTopLevel {p : List Stmt} (hc : ev.Completes p m m') (rest : List Stmt) :
    ev.runTopLevel (p ++ rest) m = ev.runTopLevel rest m' := by
  induction hc with
  | nil m => rfl
  | cons first others ih =>
    rw [List.cons_append, runTopLevel_cons, Run.either, first]
    exact ih

/-- Statements that are all executed end in the place where they began. -/
theorem Completes.samePlace (hev : ev.Returns) {p : List Stmt} (hc : ev.Completes p m m') :
    m.SamePlace m' := by
  induction hc with
  | nil m => exact .refl m
  | @cons s rest flow m m₁ m' first others ih =>
    have hplace := hev.execute s m
    rw [first] at hplace
    exact Machine.SamePlace.trans hplace ih

/-- A runtime error is marked. -/
theorem hadRuntimeError_reportHalt {halt : Halt} (h : halt ≠ .exhausted) (m : Machine) :
    (reportHalt halt m).reporter.hadRuntimeError = true := by
  cases halt with
  | exhausted => exact absurd rfl h
  | failed e => rfl
  | thrown id => rfl

/-- Statements that are stopped leave the mark of a runtime error. -/
theorem Stops.hadRuntimeError {place? : Option Token} {p : List Stmt}
    (h : ev.Stops place? p m m') : m'.reporter.hadRuntimeError = true := by
  induction h with
  | here halted known place => exact hadRuntimeError_reportHalt known _
  | later first others ih => exact ih

/-- Where no runtime error is marked, all statements were executed. -/
theorem completes_of_unmarked {p : List Stmt} (h : ev.runTopLevel p m = .ok () m')
    (hunmarked : m'.reporter.hadRuntimeError = false) : ev.Completes p m m' := by
  rcases runTopLevel_ok h with hcompletes | ⟨place?, hstops⟩
  · exact hcompletes
  · cases hstops.hadRuntimeError.symm.trans hunmarked

end Evaluator

/-! ## The modules between the two sources -/

namespace ModuleTree

variable {t : ModuleTree}

/-- Changing anything but paths does not change which module is found at a path. -/
theorem lookup?_modify (t : ModuleTree) (id : ModuleId) {f : ModuleNode → ModuleNode}
    (hf : ∀ node, (f node).path = node.path) (path : Path) :
    (t.modify id f).lookup? path = t.lookup? path := by
  have hpath : ∀ k, ((t.modify id f).node k).path = (t.node k).path := fun k => by
    rw [node_modify]
    split
    · exact hf _
    · rfl
  unfold lookup?
  simp only [size_modify, hpath]

/-- A new root is the newest module at its path. -/
theorem lookup?_create (t : ModuleTree) (path : Path) (globals exports : FrameId) :
    (t.create none path globals exports).2.lookup? path = some t.size := by
  unfold lookup?
  rw [size_create, List.range_succ, List.reverse_append, List.reverse_singleton,
    List.singleton_append, List.find?_cons_of_pos]
  rw [node_create_new]
  exact Path.beq_iff.mpr rfl

/-- A module that is changed twice is changed once by both. -/
theorem modify_modify (t : ModuleTree) (id : ModuleId) (f g : ModuleNode → ModuleNode) :
    (t.modify id f).modify id g = t.modify id fun node => g (f node) := by
  unfold modify
  congr 1
  refine Array.ext (by simp) fun i _ _ => ?_
  simp only [Array.getElem_modify]
  split <;> rfl

/-- A module that was changed in two ways. -/
theorem alike_modify {known : ExprId → Prop} (t : ModuleTree) (id : ModuleId)
    {f g : ModuleNode → ModuleNode}
    (hsame : ∀ node, (g node).globals = (f node).globals ∧ (g node).exports = (f node).exports ∧
      (g node).parent? = (f node).parent?)
    (hdistances : ∀ node e, known e → (g node).distances[e]? = (f node).distances[e]?) :
    AlikeTrees .same known (t.modify id f) (t.modify id g) := by
  refine ⟨by rw [size_modify, size_modify], fun k => ?_, fun k => ?_, fun k => ?_,
    fun k e he => ?_⟩
  · rw [node_modify, node_modify]
    split
    · exact (hsame _).1
    · rfl
  · rw [node_modify, node_modify]
    split
    · exact (hsame _).2.1
    · rfl
  · rw [node_modify, node_modify]
    split
    · exact congrArg Option.isSome (hsame _).2.2
    · rfl
  · rw [node_modify, node_modify]
    split
    · exact hdistances _ e he
    · rfl

end ModuleTree

/-- The machine in which a root module has been run. -/
def Machine.ended (m : Machine) (root : ModuleId) : Machine :=
  { closeModule root m with current := Machine.builtins }

/-- The machine in which the next program of a root module begins to run after another one has
been run. -/
def Machine.reopened (m : Machine) (root : ModuleId) (next : ExprId)
    (ds : List (ExprId × Nat)) : Machine :=
  openModule root ds { m.ended root with reporter := m.reporter.reset, nextExpr := next }

section Together

variable {m m₁ n₁ : Machine} {root : ModuleId} {bound next : ExprId} {ds es : List (ExprId × Nat)}

/-- Distances of another program do not matter to code that was there before. -/
theorem alike_open (hnew : ∀ id < bound, (es.map Prod.fst).contains id = false) :
    AlikeTrees .same (· < bound) (openModule root ds m).surroundings.modules
      (openModule root (ds ++ es) { m with nextExpr := next }).surroundings.modules := by
  refine m.modules.alike_modify root (fun _ => ⟨rfl, rfl, rfl⟩) fun node e he => ?_
  dsimp only
  rw [Std.TreeMap.insertMany_append,
    Std.TreeMap.getElem?_insertMany_list_of_contains_eq_false (hnew e he)]

/-- Ending a module leaves the roots where they are. -/
theorem lookup?_ended (m : Machine) (root : ModuleId) (path : Path) :
    (m.ended root).modules.lookup? path = m.modules.lookup? path :=
  m.modules.lookup?_modify root (f := fun node => { node with state := .loaded })
    (fun _ => rfl) path

theorem lookup?_openModule (m : Machine) (root : ModuleId) (ds : List (ExprId × Nat))
    (path : Path) : (openModule root ds m).modules.lookup? path = m.modules.lookup? path :=
  m.modules.lookup?_modify root
    (f := fun node => { node with distances := node.distances.insertMany ds }) (fun _ => rfl) path

/-- The modules when the root module is opened again: it has the distances of both programs. -/
theorem modules_reopened (hmodules : m₁.modules = (openModule root ds m).modules) :
    (m₁.reopened root next es).modules = m.modules.modify root fun node =>
      { node with
        distances := (node.distances.insertMany ds).insertMany es
        state := .loaded } := by
  show (m₁.modules.modify root _).modify root _ = _
  rw [hmodules]
  show ((m.modules.modify root _).modify root _).modify root _ = _
  rw [ModuleTree.modify_modify, ModuleTree.modify_modify]

/-- A root that is opened for both programs at once is like one that was opened for one after the
other. -/
theorem alike_reopened (next : ExprId) (es : List (ExprId × Nat))
    (hmodules : m₁.modules = (openModule root ds m).modules) :
    AlikeTrees .same (· < next) (m₁.reopened root next es).surroundings.modules
      (openModule root (ds ++ es) { m with nextExpr := next }).surroundings.modules := by
  rw [show (m₁.reopened root next es).surroundings.modules = _ from modules_reopened hmodules]
  refine m.modules.alike_modify root (fun _ => ⟨rfl, rfl, rfl⟩) fun node e _ => ?_
  dsimp only
  rw [Std.TreeMap.insertMany_append]

/-- The setting in which the first program runs, alone and with the second one behind it. -/
def Setting.ahead (m : Machine) (root : ModuleId) (bound next : ExprId)
    (ds es : List (ExprId × Nat)) (hnew : ∀ id < bound, (es.map Prod.fst).contains id = false) :
    Setting :=
  .confined .same (· < bound) (openModule root ds m).surroundings
    (openModule root (ds ++ es) { m with nextExpr := next }).surroundings (alike_open hnew)

/-- The first program begins to run in twins. -/
theorem twins_ahead (htidy : Tidy (Session.upTo bound) m) (hroot : root < m.modules.size)
    (hnew : ∀ id < bound, (es.map Prod.fst).contains id = false) :
    Twins (.ahead m root bound next ds es hnew) (openModule root ds m)
      (openModule root (ds ++ es) { m with nextExpr := next }) := by
  have h : Tidy (.ahead m root bound next ds es hnew) (openModule root ds m) :=
    htidy.change (fun _ => id) (fun _ _ => id) rfl rfl rfl
      (sameFrames_distances m.modules root ds) (htidy.globals root hroot)
  exact h.twins rfl (.refl rfl _) rfl rfl rfl rfl ⟨rfl, rfl⟩

/-- Statements without imports leave the counter of numbers, the diagnostics and the modules as they
are. -/
theorem surroundings_of_completes {depth : Nat} {p : List Stmt}
    (htidy : Tidy (Session.upTo bound) m) (hroot : root < m.modules.size)
    (hp : everyStmts (Moment.Confined (· < bound)) p)
    (hcompletes : (evaluatorUpTo depth).Completes p (openModule root ds m) m₁) :
    m₁.surroundings = (openModule root ds m).surroundings := by
  have hnew : ∀ id < bound, (([] : List (ExprId × Nat)).map Prod.fst).contains id = false :=
    fun _ _ => rfl
  have htwins : Twins (.ahead m root bound bound ds [] hnew) (openModule root ds m) _ :=
    twins_ahead htidy hroot hnew
  obtain ⟨n₁, -, h⟩ := hcompletes.twin (Setting.alike_confined (alike_open hnew) depth) hp htwins
  exact h.around.1

/-- The second program begins to run in kindred machines. -/
theorem kindred_behind (hroot : root < m.modules.size) (hle : bound ≤ next)
    (hnew : ∀ id < bound, (es.map Prod.fst).contains id = false)
    (h : Twins (.ahead m root bound next ds es hnew) m₁ n₁)
    (hmodules : m₁.modules = (openModule root ds m).modules)
    (hplace : (openModule root ds m).SamePlace m₁) :
    Kindred (alike_reopened next es hmodules) (m₁.reopened root next es) n₁ := by
  have hdistances := sameFrames_distances m.modules root ds
  have hframes : m₁.modules.SameFrames (m₁.reopened root next es).modules := by
    show m₁.modules.SameFrames ((m₁.modules.modify root _).modify root _)
    rw [ModuleTree.modify_modify]
    exact m₁.modules.sameFrames_modify root fun _ => ⟨rfl, rfl⟩
  have hcurrent : (m₁.reopened root next es).current = (m₁.modules.node root).globals :=
    (sameFrames_loaded m₁.modules root).globals root
  have hglobals : (m₁.modules.node root).globals = (m.modules.node root).globals := by
    rw [hmodules]
    exact hdistances.globals root
  have htidy : Tidy (.confined .same (· < next) _ _ (alike_reopened next es hmodules))
      (m₁.reopened root next es) := by
    refine h.tidy.change (fun moment hm => ⟨hm.importless, fun l hl => ?_⟩) (fun _ _ => id)
      rfl rfl rfl hframes ?_
    · exact Nat.lt_of_lt_of_le (hm.looked l hl) hle
    · rw [hcurrent]
      refine h.tidy.globals root ?_
      rw [hmodules]
      exact Nat.lt_of_lt_of_eq hroot hdistances.size.symm
  exact .start {
    tidy := htidy
    cells := ⟨h.cells.size, fun i hi =>
      ⟨(h.cells.cell i hi).name, (h.cells.cell i hi).home, False.elim⟩⟩
    store := h.store
    frames := h.frames
    active := h.active.trans hplace.1
    current := by
      rw [hcurrent, hglobals]
      exact h.current.trans hplace.2
    around := ⟨rfl, h.around.2⟩ }

/-- To run two programs one after the other in a root module, where all statements of the first one
are executed, comes to the same as to run them together. -/
theorem runTopLevel_joined (depth : Nat) (f : Nat → Nat) {p q : List Stmt}
    (htidy : Tidy (Session.upTo bound) m) (hroot : root < m.modules.size)
    (hreporter : m.reporter.reset = m.reporter) (hle : bound ≤ next)
    (hp : everyStmts (Moment.Confined (· < bound)) p)
    (hq : everyStmts (Moment.Confined (· < next)) q)
    (hnew : ∀ id < bound, (es.map Prod.fst).contains id = false)
    (hfirst : (evaluatorUpTo depth).Completes p (openModule root ds m) m₁) :
    SameEnd (m₁.reopened root next es).surroundings
      (openModule root (ds ++ es) { m with nextExpr := next }).surroundings
      ((evaluatorUpTo depth).runTopLevel q (m₁.reopened root next es))
      ((evaluatorUpTo depth).runTopLevel (p ++ (Relabeling.lines f).stmts q)
        (openModule root (ds ++ es) { m with nextExpr := next })) := by
  obtain ⟨n₁, hcompletes, h₁⟩ := hfirst.twin (Setting.alike_confined (alike_open hnew) depth) hp
    (twins_ahead htidy hroot hnew)
  have hsurroundings := h₁.around.1
  have hmodules : m₁.modules = (openModule root ds m).modules :=
    congrArg Surroundings.modules hsurroundings
  have hkindred := kindred_behind hroot hle hnew h₁ hmodules
    (hfirst.samePlace (returns_evaluatorUpTo depth))
  have hsame : (m₁.reopened root next es).surroundings.reporter = m.reporter := by
    show m₁.reporter.reset = m.reporter
    rw [show m₁.reporter = m.reporter from congrArg Surroundings.reporter hsurroundings, hreporter]
  have hall : (evaluatorUpTo depth).Completes p
      (openModule root (ds ++ es) { m with nextExpr := next }) n₁ := by
    rw [← Relabeling.stmts_same p]
    exact hcompletes
  rw [hall.runTopLevel]
  exact hkindred.runTopLevel (hsame ▸ .refl _) depth f hq

end Together

/-! ## Opening the root -/

/-- A source runs as the module that is found at its path. -/
theorem runRoot_found {path : Path} {root : ModuleId} {m : Machine}
    (h : m.modules.lookup? path = some root) (ev : Evaluator) (statements : List Stmt) :
    ev.runRoot path statements m = ((do
      ev.runModule root statements
      modify fun m => { m with current := Machine.builtins }) : Run Unit) m := by
  rw [runRoot_eq]
  dsimp only
  rw [h]
  rfl

/-- The module that a source runs as is found or made before anything else; what number the counter
stands at does not matter to that. -/
theorem exists_root (path : Path) (m : Machine) :
    ∃ root m', root < m'.modules.size ∧ m'.modules.lookup? path = some root ∧
      m'.reporter = m.reporter ∧
      (∀ bound, Tidy (Session.upTo bound) m → Tidy (Session.upTo bound) m') ∧
      ∀ (ev : Evaluator) statements next,
        ev.runRoot path statements { m with nextExpr := next } = ((do
          ev.runModule root statements
          modify fun m => { m with current := Machine.builtins }) : Run Unit)
            { m' with nextExpr := next } := by
  cases hlookup : m.modules.lookup? path with
  | some root =>
    have hroot : root < m.modules.size := by
      have hmem := List.mem_of_find?_eq_some hlookup
      simpa using hmem
    exact ⟨root, m, hroot, hlookup, rfl, fun _ => id, fun ev statements next =>
      runRoot_found (m := { m with nextExpr := next }) hlookup ev statements⟩
  | none =>
    refine ⟨m.modules.size, (m.createModule none path).2, ?_, ModuleTree.lookup?_create _ _ _ _,
      rfl, fun bound h => ?_, fun ev statements next => ?_⟩
    · exact Nat.lt_of_lt_of_eq (Nat.lt_succ_self _) (ModuleTree.size_create _ _ _ _ _).symm
    · have hcreated := meets_createRoot (σ := Session.upTo bound) trivial (h.self rfl rfl) path
      obtain ⟨n', -, htwins, -⟩ := hcreated
      exact htwins.tidy
    · rw [runRoot_eq]
      dsimp only
      rw [hlookup]
      rfl

namespace Session

/-- To run a source in a machine as a root module is to run a program in another machine, and then
to close the module. -/
structure Opens (depth : Nat) (path : Path) (source : String) (m : Machine) (root : ModuleId)
    (program : List Stmt) (opened : Machine) : Prop where
  ok : ∀ m', (evaluatorUpTo depth).runTopLevel program opened = .ok () m' →
    runSource depth path source m = .ok true (m'.ended root)
  error : ∀ halt m', (evaluatorUpTo depth).runTopLevel program opened = .error halt m' →
    runSource depth path source m = .error halt m'

variable {source : String} {tokens : List Token} {p : List Stmt} {ds : List (ExprId × Nat)}
  {m m' : Machine} {root : ModuleId} {path : Path}

/-- An accepted source runs its statements in the root, which is opened with their distances. -/
theorem opens_accepted (depth : Nat) (hscan : Token.scan source = .ok tokens)
    (hparse : (parse m.nextExpr tokens).result = .ok p) (hresolve : Scope.resolve p = .ok ds)
    (hroot : ∀ (ev : Evaluator), ev.runRoot path p { m with
        reporter := m.reporter.reset
        nextExpr := (parse m.nextExpr tokens).nextId } = ((do
      ev.runModule root p
      modify fun m => { m with current := Machine.builtins }) : Run Unit) m') :
    Opens depth path source m root p (openModule root ds m') := by
  have hcompile : Evaluator.compile? source { m with reporter := m.reporter.reset } =
      .ok (some p) { m with
        reporter := m.reporter.reset
        nextExpr := (parse m.nextExpr tokens).nextId } := by
    rw [compile?_eq hscan]
    dsimp only
    rw [hparse]
    rfl
  have hmodule : (evaluatorUpTo depth).runModule root p m' =
      (do (evaluatorUpTo depth).runTopLevel p; modify (closeModule root) : Run Unit)
        (openModule root ds m') := by
    rcases runModule_cases root p m' with ⟨errors, herrors, -⟩ | ⟨ds', hds, heq⟩
    · cases hresolve.symm.trans herrors
    · obtain rfl := Except.ok.inj (hresolve.symm.trans hds)
      exact heq _
  -- What becomes of the statements is handed on by one layer after the other.
  constructor
  · intro m₁ hrun
    have hdone : (evaluatorUpTo depth).runModule root p m' = .ok () (closeModule root m₁) := by
      rw [hmodule, Run.bind_of_ok hrun]
      rfl
    have hroot' := hroot (evaluatorUpTo depth)
    rw [Run.bind_of_ok hdone] at hroot'
    rw [runSource_some hcompile, Run.bind_of_ok hroot']
    rfl
  · intro halt m₁ hrun
    have hdone : (evaluatorUpTo depth).runModule root p m' = .error halt m₁ := by
      rw [hmodule, Run.bind_of_error hrun]
    have hroot' := hroot (evaluatorUpTo depth)
    rw [Run.bind_of_error hdone] at hroot'
    rw [runSource_some hcompile, Run.bind_of_error hroot']

/-! ## What is left of a step -/

/-- How a global of the root module is shown, if there is one of that name. -/
def displayedGlobal? (s : Session) (name : String) : Option Shown :=
  (s.machine.modules.lookup? s.root).bind fun root =>
    s.machine.shown? (s.machine.modules.node root).globals name

/-- Two steps have ended with the same status, all output so far is the same, and the root modules
display the same globals. The diagnostics so far are the same except for the lines that they
name. -/
structure SameStep (r r' : Status × Session) : Prop where
  status : r'.1 = r.1
  output : r'.2.machine.store.output = r.2.machine.store.output
  globals : ∀ name, r'.2.displayedGlobal? name = r.2.displayedGlobal? name
  diagnostics : List.Forall₂ SameButLine r.2.machine.reporter.lines.toList
    r'.2.machine.reporter.lines.toList

/-- The displayed global is what the global frame of the root shows. -/
theorem displayedGlobal?_eq {s : Session} (h : s.machine.modules.lookup? s.root = some root)
    (name : String) :
    s.displayedGlobal? name = s.machine.shown? (s.machine.modules.node root).globals name := by
  unfold displayedGlobal?
  rw [h]
  rfl

/-- Ending the root leaves the displayed globals. -/
theorem displayedGlobal?_ended {s : Session} (m : Machine)
    (h : m.modules.lookup? s.root = some root) (name : String) :
    displayedGlobal? { s with machine := m.ended root } name =
      m.shown? (m.modules.node root).globals name := by
  have hlookup : (m.ended root).modules.lookup? s.root = some root := by
    rw [lookup?_ended, h]
  have hglobals : ((m.ended root).modules.node root).globals = (m.modules.node root).globals :=
    (sameFrames_loaded m.modules root).globals root
  refine (displayedGlobal?_eq (s := { s with machine := m.ended root }) hlookup name).trans ?_
  dsimp only
  rw [hglobals]
  rfl

/-- Reporters that are the same but for lines give the same status. -/
theorem reportedStatus_eq {r r' : Reporter} (h : r.SameButLines r') :
    reportedStatus r' = reportedStatus r := by
  unfold reportedStatus
  rw [h.hadError, h.hadRuntimeError]

/-- Two runs that end in the same way make up two steps that do. -/
theorem sameStep_of_end {s : Session} {depth : Nat} {source source' : String} {m n M N : Machine}
    {p p' : List Stmt} (hm : Opens depth s.root source m root p M)
    (hn : Opens depth s.root source' n root p' N)
    (hroot : M.modules.lookup? s.root = some root) (hroot' : N.modules.lookup? s.root = some root)
    (hglobals : (N.modules.node root).globals = (M.modules.node root).globals)
    (hend : SameEnd M.surroundings N.surroundings ((evaluatorUpTo depth).runTopLevel p M)
      ((evaluatorUpTo depth).runTopLevel p' N)) :
    SameStep (runUpTo depth { s with machine := m } source)
      (runUpTo depth { s with machine := n } source') := by
  rcases hend with ⟨m', n', hp, hp', houtcome⟩ | ⟨m', n', hp, hp', houtcome⟩
  · obtain ⟨hmodules, hmodules'⟩ := houtcome.modules
    have hmodules : m'.modules = M.modules := hmodules
    have hmodules' : n'.modules = N.modules := hmodules'
    unfold runUpTo
    dsimp only
    rw [hm.ok m' hp, hn.ok n' hp']
    refine ⟨reportedStatus_eq houtcome.reporter, houtcome.output, fun name => ?_,
      houtcome.reporter.lines⟩
    rw [displayedGlobal?_ended m' (hmodules ▸ hroot),
      displayedGlobal?_ended n' (hmodules' ▸ hroot'), hmodules, hmodules', hglobals]
    exact houtcome.shown _ _
  · obtain ⟨hmodules, hmodules'⟩ := houtcome.modules
    have hmodules : m'.modules = M.modules := hmodules
    have hmodules' : n'.modules = N.modules := hmodules'
    unfold runUpTo
    dsimp only
    rw [hm.error _ m' hp, hn.error _ n' hp']
    refine ⟨rfl, houtcome.output, fun name => ?_, houtcome.reporter.lines⟩
    dsimp only
    rw [displayedGlobal?_eq (s := { s with machine := m' }) (hmodules ▸ hroot),
      displayedGlobal?_eq (s := { s with machine := n' }) (hmodules' ▸ hroot')]
    dsimp only
    rw [hmodules, hmodules', hglobals]
    exact houtcome.shown _ _

/-- The distances of a program are recorded under numbers that were given out for it. -/
theorem not_contains_distances {first : ExprId} (hscan : Token.scan source = .ok tokens)
    (hparse : (parse first tokens).result = .ok p) (hresolve : Scope.resolve p = .ok ds) :
    ∀ id < first, (ds.map Prod.fst).contains id = false := by
  obtain ⟨rfl, -⟩ := Scope.resolve_ok hresolve
  have hfresh := (Parser.parse_fresh first (Token.proper_scan hscan)).2 p hparse
  have hids : (Scope.programUses p).map (·.id) = Scope.numbers (Scope.stmtsMarks p) :=
    Scope.stmtsUses_ids [] p
  have hrange : ∀ u ∈ Scope.programUses p, first ≤ u.id ∧ u.id < (parse first tokens).nextId :=
    fun u hu => hfresh.range u.id (hids ▸ List.mem_map_of_mem hu)
  exact fun id hid => not_contains_entries hrange hid

/-- If a program reports nothing, then to run it in a step and another one in the next step comes to
the same as to run both in one step. -/
theorem sameStep_joined {s : Session} {depth : Nat} {first second joined : String}
    {p q : List Stmt} {ds es : List (ExprId × Nat)} {root : ModuleId} {m : Machine} {next : ExprId}
    (f : Nat → Nat) (htidy : Tidy (upTo m.nextExpr) m) (hroot : root < m.modules.size)
    (hlookup : m.modules.lookup? s.root = some root) (hreporter : m.reporter.reset = m.reporter)
    (hle : m.nextExpr ≤ next) (hp : everyStmts (Moment.Confined (· < m.nextExpr)) p)
    (hq : everyStmts (Moment.Confined (· < next)) q)
    (hnew : ∀ id < m.nextExpr, (es.map Prod.fst).contains id = false)
    (hfirst : Opens depth s.root first s.machine root p (openModule root ds m))
    (hsecond : ∀ n : Machine, n.nextExpr = m.nextExpr → n.modules.lookup? s.root = some root →
      Opens depth s.root second n root q (openModule root es { n with
        reporter := n.reporter.reset
        nextExpr := next }))
    (hjoined : Opens depth s.root joined s.machine root (p ++ (Relabeling.lines f).stmts q)
      (openModule root (ds ++ es) { m with nextExpr := next }))
    (hquiet : (s.runUpTo depth first).1 = .ok) :
    SameStep ((s.runUpTo depth first).2.runUpTo depth second) (s.runUpTo depth joined) := by
  cases hr : (evaluatorUpTo depth).runTopLevel p (openModule root ds m) with
  | error halt m₁ =>
    unfold runUpTo at hquiet
    rw [hfirst.error _ _ hr] at hquiet
    cases hquiet
  | ok _ m₁ =>
    have hstep : s.runUpTo depth first =
        (reportedStatus m₁.reporter, { s with machine := m₁.ended root }) := by
      unfold runUpTo
      rw [hfirst.ok _ hr]
      rfl
    rw [hstep] at hquiet ⊢
    have hunmarked : m₁.reporter.hadRuntimeError = false := by
      cases hmark : m₁.reporter.hadRuntimeError with
      | false => rfl
      | true =>
        unfold reportedStatus at hquiet
        rw [if_pos hmark] at hquiet
        cases hquiet
    have hcompletes := completes_of_unmarked hr hunmarked
    -- The second program begins to run in the modules and with the numbers that the first one began
    -- with.
    have hsurroundings := surroundings_of_completes htidy hroot hp hcompletes
    have hnumbers : m₁.nextExpr = m.nextExpr := congrArg Surroundings.nextExpr hsurroundings
    have hmodules : m₁.modules = (openModule root ds m).modules :=
      congrArg Surroundings.modules hsurroundings
    have hfound : m₁.modules.lookup? s.root = some root := by
      rw [hmodules, lookup?_openModule, hlookup]
    have hfound' : (m₁.ended root).modules.lookup? s.root = some root := by
      rw [lookup?_ended, hfound]
    exact sameStep_of_end (hsecond (m₁.ended root) hnumbers hfound') hjoined
      ((lookup?_openModule _ root es s.root).trans hfound')
      ((lookup?_openModule _ root (ds ++ es) s.root).trans hlookup)
      ((alike_reopened next es hmodules).globals root)
      (runTopLevel_joined depth f htidy hroot hreporter hle hp hq hnew hcompletes)

/-- Running a source that reports nothing and then another one is the same as running both in a
single step, the second one below the first, if no import statement is in them or in the session
before them: the same is printed, the status and the displayed globals of the root module are the
same, and diagnostics differ in nothing but the lines that they name. -/
theorem joined_sources_run_alike {s : Session} (hs : s.Importless) (depth : Nat)
    {first second : String} (hfree : ImportFree first) (hfree' : ImportFree second)
    (hfirst : verdict 0 first = .accepted) (hsecond : verdict 0 second = .accepted)
    (hquiet : (s.runUpTo depth first).1 = .ok) :
    SameStep ((s.runUpTo depth first).2.runUpTo depth second)
      (s.runUpTo depth (first ++ "\n" ++ second)) := by
  -- Both sources are read, one behind the other and as one.
  obtain ⟨ts, p, ds, hscan, hparse, hresolve⟩ := exists_of_accepted hfirst s.machine.nextExpr
  obtain ⟨us, q, es, hscan', hparse', hresolve'⟩ :=
    exists_of_accepted hsecond (parse s.machine.nextExpr ts).nextId
  obtain ⟨k, all, hscanned, hall⟩ := Token.scan_below hscan hscan'
  obtain ⟨hparsed, hnext⟩ := Parser.parse_append hparse hparse' (fun _ => rfl) hall
  have hresolved : Scope.resolve (p ++ (Relabeling.lines (· + k)).stmts q) = .ok (ds ++ es) := by
    refine Scope.resolve_append hresolve ?_
    have := Scope.resolve_relabel (Relabeling.lines (· + k)) hresolve'
    rwa [show (es.map fun e => ((Relabeling.lines (· + k)).number e.1, e.2)) = es from
      List.map_id _] at this
  rw [← Relabeling.stmts_eq_map] at hparsed
  have hle := (Parser.parse_fresh s.machine.nextExpr (Token.proper_scan hscan)).1
  have hle' := (Parser.parse_fresh (parse s.machine.nextExpr ts).nextId
    (Token.proper_scan hscan')).1
  -- All three programs run in the same root module.
  obtain ⟨root, m, hroot, hlookup, hreporter, htidy, hrun⟩ := exists_root s.root
    { s.machine with reporter := s.machine.reporter.reset }
  have htidy' := htidy _ { hs.tidy hle with current := (hs.tidy hle).current }
  generalize hbound : (parse s.machine.nextExpr ts).nextId = bound at *
  generalize hnumber : (parse bound us).nextId = next at *
  have hopens : Opens depth s.root first s.machine root p
      (openModule root ds { m with nextExpr := bound }) := by
    refine opens_accepted depth hscan hparse hresolve fun ev => ?_
    rw [hbound]
    exact hrun ev p bound
  refine sameStep_joined (m := { m with nextExpr := bound }) (· + k)
    { htidy' with current := htidy'.current } hroot hlookup ?_ hle'
    (hfree.confined hscan hparse (Nat.le_of_eq hbound))
    (hfree'.confined hscan' hparse' (Nat.le_of_eq hnumber))
    (not_contains_distances hscan' hparse' hresolve') hopens ?_ ?_ hquiet
  · show m.reporter.reset = m.reporter
    rw [hreporter]
    rfl
  · intro n hnumbers hfound
    refine opens_accepted depth hscan' (hnumbers ▸ hparse') hresolve' fun ev => ?_
    rw [show n.nextExpr = bound from hnumbers, hnumber]
    exact runRoot_found (m := { n with
      reporter := n.reporter.reset
      nextExpr := next }) hfound ev q
  · refine opens_accepted depth hscanned hparsed hresolved fun ev => ?_
    rw [hnext]
    exact hrun ev _ next

/-- A declaration, and below it a use of it and of something that is not there: the error stands on
the first line or on the second one. -/
theorem joined_declaration_and_use :
    (start ⟨[], []⟩ 0).Importless ∧ ImportFree "var a = null;" ∧ ImportFree "print a; print b;" ∧
      verdict 0 "var a = null;" = .accepted ∧ verdict 0 "print a; print b;" = .accepted ∧
      ((start ⟨[], []⟩ 0).runUpTo 5 "var a = null;").1 = .ok ∧
      SameStep (((start ⟨[], []⟩ 0).runUpTo 5 "var a = null;").2.runUpTo 5 "print a; print b;")
        ((start ⟨[], []⟩ 0).runUpTo 5 ("var a = null;" ++ "\n" ++ "print a; print b;")) := by
  have hscan : Token.scan "var a = null;" = .ok [⟨.varWord, "var", none, 1⟩,
      ⟨.identifier, "a", none, 1⟩, ⟨.equal, "=", none, 1⟩, ⟨.nullWord, "null", none, 1⟩,
      ⟨.semicolon, ";", none, 1⟩, ⟨.eof, "", none, 1⟩] := by
    with_unfolding_all rfl
  have hscan' : Token.scan "print a; print b;" = .ok [⟨.printWord, "print", none, 1⟩,
      ⟨.identifier, "a", none, 1⟩, ⟨.semicolon, ";", none, 1⟩, ⟨.printWord, "print", none, 1⟩,
      ⟨.identifier, "b", none, 1⟩, ⟨.semicolon, ";", none, 1⟩, ⟨.eof, "", none, 1⟩] := by
    with_unfolding_all rfl
  have hfree : ImportFree "var a = null;" :=
    .of_parse hscan rfl (by simp [everyStmts, everyStmt, everyExpr?, everyExpr, Moment.Importless])
  have hfree' : ImportFree "print a; print b;" :=
    .of_parse hscan' rfl (by simp [everyStmts, everyStmt, everyExpr, Moment.Importless])
  have hfirst : verdict 0 "var a = null;" = .accepted := by decide +kernel
  have hsecond : verdict 0 "print a; print b;" = .accepted := by decide +kernel
  have hquiet : ((start ⟨[], []⟩ 0).runUpTo 5 "var a = null;").1 = .ok := by decide +kernel
  exact ⟨.start _ _, hfree, hfree', hfirst, hsecond, hquiet,
    joined_sources_run_alike (.start _ _) 5 hfree hfree' hfirst hsecond hquiet⟩

end Session

end ScriptEngine
