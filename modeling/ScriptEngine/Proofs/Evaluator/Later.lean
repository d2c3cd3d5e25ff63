import ScriptEngine.Proofs.Evaluator.Place
import ScriptEngine.Proofs.ModuleTree.Extends

/-!
# What runs leave of modules and errors

A run of any part of a program leaves the files as they are, keeps the modules that were there, and
forgets no error. Loads that began in it have come to an end when it does, unless it was broken off:
the older modules are in the state they were in, and every module that is new was run to its end
(`Machine.HasRun`).

`Machine.Onward` is what holds even of a run that was broken off, `Machine.Later` what holds of any
other; both hold of every expression and every statement at every depth, in every machine.
-/

namespace ScriptEngine

/-- The files are the same, the modules are still there, and errors are not forgotten. -/
structure Machine.Onward (m m' : Machine) : Prop where
  files : m'.files = m.files
  modules : m.modules.Extends m'.modules
  errors : m.reporter.hadError = true → m'.reporter.hadError = true

/-- The module is loaded: at some time the statements of its file were run as those of this module,
and that run came to its end. -/
structure Machine.HasRun (m : Machine) (k : ModuleId) : Prop where
  state : (m.modules.node k).state = .loaded
  ended : ∃ depth source statements before after,
    m.files.read (m.modules.node k).path = .ok source ∧ Parses source statements ∧
      (evaluatorUpTo depth).runModule k statements before = .ok () after ∧ after.Onward m

/-- No load is left over: the older modules are in the same state as before, the newer ones were run
to their end. -/
structure Machine.Later (m m' : Machine) : Prop extends m.Onward m' where
  states : ∀ k < m.modules.size, (m'.modules.node k).state = (m.modules.node k).state
  ended : ∀ k < m'.modules.size, m.modules.size ≤ k → m'.HasRun k

namespace Machine

variable {m m' m'' : Machine}

theorem Onward.refl (m : Machine) : m.Onward m :=
  ⟨rfl, .refl _, fun h => h⟩

/-- Going onward twice is going onward. -/
theorem Onward.trans (h : m.Onward m') (h' : m'.Onward m'') : m.Onward m'' :=
  ⟨h'.files.trans h.files, h.modules.trans h'.modules, fun he => h'.errors (h.errors he)⟩

/-- Where no error has been counted, none had been before. -/
theorem Onward.quiet (h : m.Onward m') (hquiet : m'.reporter.hadError = false) :
    m.reporter.hadError = false := by
  rw [← Bool.not_eq_true] at hquiet ⊢
  exact fun hcounted => hquiet (h.errors hcounted)

/-- What has run stays so as long as nobody touches its state. -/
theorem HasRun.mono {k : ModuleId} (h : m.HasRun k) (hk : k < m.modules.size) (ho : m.Onward m')
    (hstate : (m'.modules.node k).state = (m.modules.node k).state) : m'.HasRun k where
  state := hstate.trans h.state
  ended := by
    obtain ⟨depth, source, statements, before, after, hread, hparses, hrun, hafter⟩ := h.ended
    refine ⟨depth, source, statements, before, after, ?_, hparses, hrun, hafter.trans ho⟩
    rw [ho.files, ho.modules.path k hk]
    exact hread

/-- Two stretches of a run after which no load is left over are one. -/
theorem Later.trans (h : m.Later m') (h' : m'.Later m'') : m.Later m'' where
  toOnward := h.toOnward.trans h'.toOnward
  states := fun k hk =>
    (h'.states k (Nat.lt_of_lt_of_le hk h.modules.size)).trans (h.states k hk)
  ended := fun k hk hle => by
    by_cases hlt : k < m'.modules.size
    · exact (h.ended k hlt hle).mono hlt h'.toOnward (h'.states k hlt)
    · exact h'.ended k hk (Nat.le_of_not_lt hlt)

/-- Modules may get distances and links without anything having run. -/
theorem Later.of_modules (hfiles : m'.files = m.files) (hsize : m'.modules.size = m.modules.size)
    (hmodules : m.modules.Extends m'.modules)
    (hstates : ∀ k, (m'.modules.node k).state = (m.modules.node k).state)
    (herrors : m.reporter.hadError = true → m'.reporter.hadError = true) : m.Later m' where
  files := hfiles
  modules := hmodules
  errors := herrors
  states := fun k _ => hstates k
  ended := fun _ hk hle => absurd (hsize ▸ hk) (Nat.not_lt_of_le hle)

/-- Where files and modules are the same no load is left over. -/
theorem Later.of_same (hfiles : m'.files = m.files) (hmodules : m'.modules = m.modules)
    (herrors : m.reporter.hadError = true → m'.reporter.hadError = true) : m.Later m' := by
  refine .of_modules hfiles (by rw [hmodules]) ?_ (fun k => by rw [hmodules]) herrors
  rw [hmodules]
  exact .refl _

theorem Later.refl (m : Machine) : m.Later m :=
  .of_same rfl rfl fun h => h

end Machine

namespace Run

/-- An outcome after which no load is left over, unless it was broken off. -/
def EndsLater {α : Type} (m : Machine) : EStateM.Result Halt Machine α → Prop
  | .ok _ m' => m.Later m'
  | .error .exhausted m' => m.Onward m'
  | .error _ m' => m.Later m'

/-- The computation leaves no load over, however it ends. -/
def Proceeds {α : Type} (x : Run α) : Prop :=
  ∀ m, EndsLater m (x m)

variable {α β : Type} {m m' : Machine}

/-- However a run ends it has gone onward. -/
theorem EndsLater.onward {r : EStateM.Result Halt Machine α} (h : EndsLater m r) :
    m.Onward (left r) := by
  cases r with
  | ok a m' => exact h.toOnward
  | error halt m' =>
    cases halt with
    | exhausted => exact h
    | failed e => exact h.toOnward
    | thrown id => exact h.toOnward

/-- A run that was not broken off leaves no load over when it is halted. -/
theorem EndsLater.halted {halt : Halt}
    (h : EndsLater m (.error halt m' : EStateM.Result Halt Machine α)) (hne : halt ≠ .exhausted) :
    m.Later m' := by
  cases halt with
  | exhausted => exact absurd rfl hne
  | failed e => exact h
  | thrown id => exact h

/-- A machine without a load left over may end in any way. -/
theorem endsLater_of_later {r : EStateM.Result Halt Machine α} (h : m.Later (left r)) :
    EndsLater m r := by
  cases r with
  | ok a m' => exact h
  | error halt m' =>
    cases halt with
    | exhausted => exact h.toOnward
    | failed e => exact h
    | thrown id => exact h

theorem EndsLater.trans {r : EStateM.Result Halt Machine α} (h : m.Later m')
    (hr : EndsLater m' r) : EndsLater m r := by
  cases r with
  | ok a m'' => exact h.trans hr
  | error halt m'' =>
    cases halt with
    | exhausted => exact h.toOnward.trans hr
    | failed e => exact h.trans hr
    | thrown id => exact h.trans hr

/-- The outcome with the machine changed at the end. -/
def adjust (f : Machine → Machine) : EStateM.Result Halt Machine α → EStateM.Result Halt Machine α
  | .ok a m => .ok a (f m)
  | .error halt m => .error halt (f m)

/-- Changing the machine of an outcome changes the machine that it leaves. -/
theorem left_adjust (f : Machine → Machine) (r : EStateM.Result Halt Machine α) :
    left (adjust f r) = f (left r) := by
  cases r <;> rfl

/-- Running in a frame is running there and changing the current frame back. -/
theorem inFrame_eq (frame : FrameId) (body : Run α) (m : Machine) :
    inFrame frame body m =
      adjust (fun m' => { m' with current := m.current }) (body { m with current := frame }) := by
  unfold inFrame adjust
  cases body { m with current := frame } <;> rfl

/-- Running as a module is running so and changing the active module back. -/
theorem inModule_eq (id : ModuleId) (body : Run α) (m : Machine) :
    inModule id body m =
      adjust (fun m' => { m' with active? := m.active? }) (body { m with active? := some id }) := by
  unfold inModule adjust
  cases body { m with active? := some id } <;> rfl

/-- A change that leaves no load over may come at the end. -/
theorem EndsLater.adjust {r : EStateM.Result Halt Machine α} {f : Machine → Machine}
    (hr : EndsLater m r) (hf : ∀ m' : Machine, m'.Later (f m')) : EndsLater m (Run.adjust f r) := by
  cases r with
  | ok a m' => exact Machine.Later.trans hr (hf m')
  | error halt m' =>
    cases halt with
    | exhausted => exact Machine.Onward.trans hr (hf m').toOnward
    | failed e => exact Machine.Later.trans hr (hf m')
    | thrown id => exact Machine.Later.trans hr (hf m')

/-! ## The building blocks -/

theorem proceeds_local {x : Run α} (h : x.Local) : Proceeds x := by
  intro m
  obtain ⟨store, frames, hleft, -⟩ := h m
  refine endsLater_of_later ?_
  rw [hleft]
  exact .of_same rfl rfl fun h => h

/-- A change of the machine that leaves no load over does not when it is run. -/
theorem proceeds_modify {f : Machine → Machine} (h : ∀ m : Machine, m.Later (f m)) :
    Proceeds (modify f : Run Unit) :=
  h

/-- A choice leaves no load over if its cases do not, where what is broken off stays so. -/
theorem proceeds_either {x : Run α} {f : α → Run β} {g : Halt → Run β} (hx : Proceeds x)
    (hf : ∀ a, Proceeds (f a)) (hg : ∀ halt, halt ≠ .exhausted → Proceeds (g halt))
    (hexhausted : g .exhausted = throw .exhausted) : Proceeds (x.either f g) := by
  intro m
  have h := hx m
  unfold either
  cases hr : x m with
  | ok a m' =>
    rw [hr] at h
    exact EndsLater.trans h (hf a m')
  | error halt m' =>
    rw [hr] at h
    cases halt with
    | exhausted =>
      dsimp only
      rw [hexhausted]
      exact h
    | failed e => exact EndsLater.trans h (hg (.failed e) (by simp) m')
    | thrown id => exact EndsLater.trans h (hg (.thrown id) (by simp) m')

theorem proceeds_bind {x : Run α} {f : α → Run β} (hx : Proceeds x) (hf : ∀ a, Proceeds (f a)) :
    Proceeds (x >>= f) := by
  rw [bind_eq_either]
  exact proceeds_either hx hf (fun halt _ => proceeds_local (plain_throw halt).local) rfl

theorem proceeds_inFrame {body : Run α} (frame : FrameId) (h : Proceeds body) :
    Proceeds (inFrame frame body) := by
  intro m
  have hin : m.Later { m with current := frame } := .of_same rfl rfl fun h => h
  rw [inFrame_eq]
  exact (EndsLater.trans hin (h _)).adjust fun m' => .of_same rfl rfl fun h => h

theorem proceeds_inModule {body : Run α} (id : ModuleId) (h : Proceeds body) :
    Proceeds (inModule id body) := by
  intro m
  have hin : m.Later { m with active? := some id } := .of_same rfl rfl fun h => h
  rw [inModule_eq]
  exact (EndsLater.trans hin (h _)).adjust fun m' => .of_same rfl rfl fun h => h

end Run

/-! ## Parts of a program -/

namespace Evaluator

open Run

/-- The evaluation of every part of a program leaves no load over. -/
structure Proceeds (ev : Evaluator) : Prop where
  evaluate : ∀ e, Run.Proceeds (ev.evaluate e)
  execute : ∀ s, Run.Proceeds (ev.execute s)

variable {ev : Evaluator} {m : Machine}

/-- What is composed leaves no load over if the parts do not. -/
theorem Composed.proceeds {α : Type} {x : Evaluator → Run α} (hx : Composed x) (h : ev.Proceeds) :
    Run.Proceeds (x ev) := by
  induction hx with
  | basic hlocal => exact proceeds_local hlocal
  | evaluate e => exact h.evaluate e
  | execute s => exact h.execute s
  | either _ _ _ hexhausted ihx ihf ihg => exact proceeds_either ihx ihf ihg (hexhausted ev)
  | inNewFrame enclosing bindings _ ih =>
    exact proceeds_bind (proceeds_local (plain_newFrame _ _).local) fun frame =>
      proceeds_inFrame frame ih
  | inModule id _ ih => exact proceeds_inModule id ih

/-! ## Modules -/

/-- A halt is reported, which forgets no error. -/
theorem later_reportHalt (halt : Halt) (m : Machine) : m.Later (reportHalt halt m) := by
  have hstopped : ∀ token? message, m.Later
      { m with reporter := m.reporter.stopped token? message } := fun token? message =>
    .of_same rfl rfl fun h => by rw [Reporter.hadError_stopped, h, Bool.true_or]
  cases halt with
  | failed e => exact hstopped _ _
  | thrown id => exact hstopped _ _
  | exhausted => exact .refl m

/-- Reporting a halt leaves no load over. -/
theorem proceeds_closing (halt : Halt) : Run.Proceeds (closing halt) := by
  cases halt with
  | exhausted => exact proceeds_local (plain_throw _).local
  | failed e => exact proceeds_modify (later_reportHalt (.failed e))
  | thrown id => exact proceeds_modify (later_reportHalt (.thrown id))

theorem proceeds_runTopLevel (h : ev.Proceeds) (statements : List Stmt) :
    Run.Proceeds (ev.runTopLevel statements) := by
  induction statements with
  | nil => exact proceeds_local (plain_pure ()).local
  | cons s rest ih =>
    rw [runTopLevel_cons]
    exact proceeds_either (h.execute s) (fun _ => ih) (fun halt _ => proceeds_closing halt) rfl

/-- The machine with a module that has been run. -/
def closeModule (id : ModuleId) (m : Machine) : Machine :=
  { m with
    modules := m.modules.modify id fun node => { node with state := .loaded }
    active? := none }

/-- The machine in which the statements of a module begin to run. -/
def openModule (id : ModuleId) (distances : List (ExprId × Nat)) (m : Machine) : Machine :=
  { m with
    active? := some id
    current := (m.modules.node id).globals
    modules := m.modules.modify id fun node =>
      { node with distances := node.distances.insertMany distances } }

/-- A module is opened with its distances, its statements run, and it is closed, unless its names
are rejected. -/
theorem runModule_eq (ev : Evaluator) (id : ModuleId) (statements : List Stmt) (m : Machine) :
    ev.runModule id statements m = ((do
      match Scope.resolve statements with
      | .ok distances => do
        modify fun m => { m with
          modules := m.modules.modify id fun node =>
            { node with distances := node.distances.insertMany distances } }
        ev.runTopLevel statements
      | .error errors => report fun r => errors.foldl Reporter.scope r
      modify (closeModule id)) : Run Unit)
        { m with active? := some id, current := (m.modules.node id).globals } :=
  rfl

/-- A module without scope errors runs its statements; in any case it is closed then. -/
theorem runModule_cases (id : ModuleId) (statements : List Stmt) (m : Machine) :
    (∃ errors, Scope.resolve statements = .error errors ∧ ∀ ev : Evaluator,
      ev.runModule id statements m = .ok () (closeModule id { m with
        active? := some id, current := (m.modules.node id).globals,
        reporter := errors.foldl Reporter.scope m.reporter })) ∨
    ∃ distances, Scope.resolve statements = .ok distances ∧ ∀ ev : Evaluator,
      ev.runModule id statements m =
        (do ev.runTopLevel statements; modify (closeModule id)) (openModule id distances m) := by
  cases hresolve : Scope.resolve statements with
  | error errors =>
    refine Or.inl ⟨errors, rfl, fun ev => ?_⟩
    rw [runModule_eq, hresolve]
    rfl
  | ok distances =>
    refine Or.inr ⟨distances, rfl, fun ev => ?_⟩
    rw [runModule_eq, hresolve]
    rfl

theorem later_openModule (id : ModuleId) (distances : List (ExprId × Nat)) (m : Machine) :
    m.Later (openModule id distances m) := by
  refine .of_modules rfl (ModuleTree.size_modify _ _ _)
    (ModuleTree.extends_modify _ _ fun _ => ⟨rfl, rfl, fun _ hc => hc⟩) (fun k => ?_) fun h => h
  show ((m.modules.modify id _).node k).state = _
  rw [ModuleTree.node_modify]
  split <;> rfl

/-- A module that was run is closed in a machine in which no other load is left over. -/
theorem endsLater_runModule (h : ev.Proceeds) (id : ModuleId) (statements : List Stmt)
    (m : Machine) :
    match ev.runModule id statements m with
    | .ok _ m' => ∃ m₁, m.Later m₁ ∧ m' = closeModule id m₁
    | .error _ m' => m.Onward m' := by
  rcases runModule_cases id statements m with ⟨errors, -, hrun⟩ | ⟨distances, -, hrun⟩
  · rw [hrun]
    have hreport : m.Later { m with
        active? := some id, current := (m.modules.node id).globals,
        reporter := errors.foldl Reporter.scope m.reporter } :=
      .of_same rfl rfl fun he => Reporter.hadError_foldl (fun _ _ => rfl) errors (Or.inl he)
    exact ⟨_, hreport, rfl⟩
  · rw [hrun]
    have htop := EndsLater.trans (later_openModule id distances m)
      (proceeds_runTopLevel h statements (openModule id distances m))
    show match (EStateM.bind (ev.runTopLevel statements) _ (openModule id distances m) :
        EStateM.Result Halt Machine Unit) with
      | .ok _ m' => ∃ m₁, m.Later m₁ ∧ m' = closeModule id m₁
      | .error _ m' => m.Onward m'
    unfold EStateM.bind
    cases hr : ev.runTopLevel statements (openModule id distances m) with
    | ok u m₁ =>
      rw [hr] at htop
      exact ⟨m₁, htop, rfl⟩
    | error halt m₁ =>
      rw [hr] at htop
      exact htop.onward

theorem onward_closeModule (id : ModuleId) (m : Machine) : m.Onward (closeModule id m) :=
  ⟨rfl, ModuleTree.extends_modify _ _ fun _ => ⟨rfl, rfl, fun _ hc => hc⟩, fun h => h⟩

/-- A module that runs goes onward, however it ends. -/
theorem onward_runModule (h : ev.Proceeds) (id : ModuleId) (statements : List Stmt)
    (m : Machine) : m.Onward (Run.left (ev.runModule id statements m)) := by
  have hends := endsLater_runModule h id statements m
  cases hr : ev.runModule id statements m with
  | ok u m' =>
    rw [hr] at hends
    obtain ⟨m₁, hlater, rfl⟩ := hends
    exact hlater.toOnward.trans (onward_closeModule id m₁)
  | error halt m' =>
    rw [hr] at hends
    exact hends

/-- A module is run and then left. -/
theorem onward_leave {x : Run Unit} {f : Machine → Machine} (hx : m.Onward (Run.left (x m)))
    (hf : ∀ m' : Machine, m'.Onward (f m')) :
    m.Onward (Run.left ((do x; modify f : Run Unit) m)) := by
  show m.Onward (Run.left (EStateM.bind x _ m))
  unfold EStateM.bind
  cases hr : x m with
  | ok u m' =>
    rw [hr] at hx
    exact hx.trans (hf m')
  | error halt m' =>
    rw [hr] at hx
    exact hx

/-- Closing a module makes it loaded and no other. -/
theorem state_closeModule {id : ModuleId} {m : Machine} (k : ModuleId) :
    ((closeModule id m).modules.node k).state =
      if k = id ∧ id < m.modules.size then .loaded else (m.modules.node k).state := by
  show ((m.modules.modify id _).node k).state = _
  rw [ModuleTree.node_modify]
  split <;> rfl

/-- The modules after a first import. -/
theorem modules_sprout (m : Machine) (importer : ModuleId) (path : Path) :
    (m.sprout importer path).1 = m.modules.size ∧ ∃ globals exports,
      (m.sprout importer path).2.modules = m.modules.sprout importer path globals exports :=
  ⟨rfl, _, _, rfl⟩

theorem onward_sprout (m : Machine) (importer : ModuleId) (path : Path) :
    m.Onward (m.sprout importer path).2 := by
  obtain ⟨-, globals, exports, hmodules⟩ := modules_sprout m importer path
  refine ⟨rfl, ?_, fun h => h⟩
  rw [hmodules]
  exact m.modules.extends_sprout importer path globals exports

/-- The new module is about to run; the others are in the state they were in. -/
theorem state_sprout (m : Machine) (importer : ModuleId) (path : Path) (k : ModuleId) :
    (((m.sprout importer path).2.modules.node k).state =
      if k = m.modules.size then .loading else (m.modules.node k).state) := by
  obtain ⟨-, globals, exports, hmodules⟩ := modules_sprout m importer path
  obtain ⟨children, hnode, -, -⟩ := m.modules.node_sprout importer path globals exports k
  rw [hmodules, hnode, ModuleTree.node_create]
  split <;> rfl

theorem size_sprout (m : Machine) (importer : ModuleId) (path : Path) :
    (m.sprout importer path).2.modules.size = m.modules.size + 1 := by
  obtain ⟨-, globals, exports, hmodules⟩ := modules_sprout m importer path
  rw [hmodules, ModuleTree.size_sprout]

/-- The new module has the path and the parent that it was given. -/
theorem new_sprout (m : Machine) (importer : ModuleId) (path : Path) :
    ((m.sprout importer path).2.modules.node m.modules.size).path = path ∧
      ((m.sprout importer path).2.modules.node m.modules.size).parent? = some importer := by
  obtain ⟨-, globals, exports, hmodules⟩ := modules_sprout m importer path
  obtain ⟨_, hnew, -, -⟩ := m.modules.node_sprout importer path globals exports m.modules.size
  rw [ModuleTree.node_create_new] at hnew
  rw [hmodules, hnew]
  exact ⟨rfl, rfl⟩

/-- The importer links to the new module. -/
theorem child_sprout (m : Machine) {importer : ModuleId} (path : Path)
    (himporter : importer < m.modules.size) :
    m.modules.size ∈ ((m.sprout importer path).2.modules.node importer).children := by
  obtain ⟨-, globals, exports, hmodules⟩ := modules_sprout m importer path
  obtain ⟨_, hnode, hiff, -⟩ := m.modules.node_sprout importer path globals exports importer
  rw [hmodules, hnode]
  exact (hiff _).mpr (Or.inr ⟨rfl, Nat.lt_succ_of_lt himporter, rfl⟩)

/-- When a new module is closed, all that was loaded since it was made has run to its end. -/
theorem later_closeModule {m₁ : Machine} {importer : ModuleId} {path : Path}
    (hlater : (m.sprout importer path).2.Later m₁)
    (hrun : (closeModule m.modules.size m₁).HasRun m.modules.size) :
    m.Later (closeModule m.modules.size m₁) where
  toOnward := ((onward_sprout m importer path).trans hlater.toOnward).trans (onward_closeModule _ _)
  states := fun k hk => by
    have hne : k ≠ m.modules.size := Nat.ne_of_lt hk
    have hlt := Nat.lt_of_lt_of_le hk (onward_sprout m importer path).modules.size
    rw [state_closeModule, if_neg fun heq => hne heq.1, hlater.states k hlt, state_sprout,
      if_neg hne]
  ended := fun k hk hle => by
    by_cases heq : k = m.modules.size
    · rw [heq]
      exact hrun
    · have hk₁ : k < m₁.modules.size := by
        rwa [closeModule, ModuleTree.size_modify] at hk
      refine (hlater.ended k hk₁ ?_).mono hk₁ (onward_closeModule _ _) ?_
      · rw [size_sprout]
        exact Nat.lt_of_le_of_ne hle (Ne.symm heq)
      · rw [state_closeModule, if_neg fun h => heq h.1]

/-- A module that was imported has run to its end, and so has every other one that is new. -/
theorem endsLater_runImported {depth : Nat} (h : (evaluatorUpTo depth).Proceeds)
    {importer : ModuleId} {path : Path} {source : String} {statements : List Stmt}
    (hread : m.files.read path = .ok source) (hparses : Parses source statements) :
    EndsLater m ((evaluatorUpTo depth).runImported importer path statements m) := by
  have hsprout := onward_sprout m importer path
  have hrun := endsLater_runModule h m.modules.size statements (m.sprout importer path).2
  have hsettled : Settled _ ((evaluatorUpTo depth).runModule m.modules.size statements
    (m.sprout importer path).2) := settled_runModule _ _ _
  rw [runImported_run]
  show EndsLater m (EStateM.bind ((evaluatorUpTo depth).runModule m.modules.size statements) _
    (m.sprout importer path).2)
  unfold EStateM.bind
  cases hr : (evaluatorUpTo depth).runModule m.modules.size statements
      (m.sprout importer path).2 with
  | error halt m' =>
    rw [hr] at hrun hsettled
    rw [show halt = .exhausted from hsettled]
    exact hsprout.trans hrun
  | ok u m' =>
    rw [hr] at hrun
    obtain ⟨m₁, hlater, rfl⟩ := hrun
    have honward := hlater.toOnward.trans (onward_closeModule m.modules.size m₁)
    have hnew : m.modules.size < (m.sprout importer path).2.modules.size := by
      rw [size_sprout]
      exact Nat.lt_succ_self _
    have hlt := Nat.lt_of_lt_of_le hnew hlater.modules.size
    have hclosed : (closeModule m.modules.size m₁).HasRun m.modules.size := by
      refine ⟨?_, depth, source, statements, _, _, ?_, hparses, hr, .refl _⟩
      · rw [state_closeModule, if_pos ⟨rfl, hlt⟩]
      · rw [honward.files, honward.modules.path _ hnew, (new_sprout m importer path).1]
        exact hread
    -- Coming back to the importer changes nothing but the place.
    exact (later_closeModule hlater hclosed).trans (.of_same rfl rfl fun h => h)

/-! ## Imports -/

/-- Another link between modules is no load. -/
theorem later_addChild (m : Machine) (importer child : ModuleId) :
    m.Later { m with modules := m.modules.addChild importer child } := by
  refine .of_modules rfl (ModuleTree.size_addChild _ _ _) (ModuleTree.extends_addChild _ _ _)
    (fun k => ?_) fun h => h
  obtain ⟨children, hnode, -, -⟩ := ModuleTree.node_addChild m.modules importer child k
  show ((m.modules.addChild importer child).node k).state = _
  rw [hnode]

/-- A load of a module leaves no load over. -/
theorem proceeds_loadModule {depth : Nat} (h : (evaluatorUpTo depth).Proceeds)
    (importer : ModuleId) (path : Path) (token : Token) :
    Run.Proceeds ((evaluatorUpTo depth).loadModule importer path token) := by
  intro m
  rcases loadModule_cases importer path token m with ⟨existing, -, hload⟩ |
    ⟨-, reporter, nextExpr, herrors, ⟨e, hload⟩ | ⟨source, statements, hread, hparses, hload⟩⟩
  · rw [hload]
    exact later_addChild m importer existing
  · rw [hload]
    exact .of_same rfl rfl herrors
  · rw [hload]
    have hcompiled : m.Later { m with reporter := reporter, nextExpr := nextExpr } :=
      .of_same rfl rfl herrors
    exact EndsLater.trans hcompiled (endsLater_runImported h hread hparses)

theorem proceeds_importNames {depth : Nat} (h : (evaluatorUpTo depth).Proceeds) (token : Token)
    (items : List ImportItem) : Run.Proceeds ((evaluatorUpTo depth).importNames token items) := by
  intro m
  rcases importNames_cases token items m with ⟨e, -, himport⟩ | ⟨importer, -, -, himport⟩
  · rw [himport]
    exact .refl m
  · rw [himport]
    exact proceeds_bind (proceeds_loadModule h _ _ _)
      (fun _ => proceeds_local (plain_bindLoaded _ _ _ _).local) m

end Evaluator

/-! ## The whole evaluator -/

/-- No expression and no statement leaves a load over, at any depth. -/
theorem proceeds_evaluatorUpTo (depth : Nat) : (evaluatorUpTo depth).Proceeds := by
  induction depth with
  | zero =>
    refine ⟨fun e => ?_, fun s => ?_⟩
    · show Run.Proceeds (evaluate 0 e)
      unfold evaluate
      exact Run.proceeds_local (Run.plain_throw _).local
    · show Run.Proceeds (execute 0 s)
      unfold execute
      exact Run.proceeds_local (Run.plain_throw _).local
  | succ depth ih =>
    refine ⟨fun e => ?_, fun s => ?_⟩
    · show Run.Proceeds (evaluate (depth + 1) e)
      unfold evaluate
      exact (Evaluator.composed_evaluateStep e).proceeds ih
    · show Run.Proceeds (execute (depth + 1) s)
      unfold execute
      cases s with
      | importFrom path items =>
        exact Run.proceeds_bind (Evaluator.proceeds_importNames ih path items) fun _ =>
          Run.proceeds_local (Run.plain_pure _).local
      | _ => exact (Evaluator.composed_executeStep depth (by simp)).proceeds ih

end ScriptEngine
