import ScriptEngine.Proofs.Evaluator.Later
import ScriptEngine.Proofs.Evaluator.Statement

/-!
# What an import comes to

An import that completes has bound each of its names to a reference to one module, the module of the
importer's tree that has the path. If there was such a module before, the import has only linked it
to the importer, whatever it would take to run its statements. A module that has not come to its end
is not asked for names it does not have yet.
-/

namespace ScriptEngine

open Scope hiding bind

/-- The module of a tree with a path. -/
structure ModuleTree.IsAt (t : ModuleTree) (importer : ModuleId) (path : Path) (k : ModuleId) :
    Prop where
  lt : k < t.size
  root : t.root k = t.root importer
  path : (t.node k).path.components = path.components

/-- There is no other. -/
theorem ModuleTree.IsAt.unique {t : ModuleTree} (h : t.Linked) {importer j k : ModuleId}
    {path : Path} (hj : t.IsAt importer path j) (hk : t.IsAt importer path k) : j = k :=
  h.paths j hj.lt k hk.lt (hj.root.trans hk.root.symm) (hj.path.trans hk.path.symm)

/-- What an importer's load of a path comes to. A module of its tree with the path is linked to the
importer, and no statement is executed, whatever there is to execute it. If there is none, then
nothing is executed either, since the file gives no statements; or else its statements run as those
of a new module, which is the one of the tree with the path before the first of them does. -/
structure Machine.LoadsOnce (m : Machine) (importer : ModuleId) (path : Path) (token : Token) :
    Prop where
  again : ∀ k, m.modules.IsAt importer path k → ∀ ev : Evaluator,
    ev.loadModule importer path token m =
      .ok () { m with modules := m.modules.addChild importer k }
  first : (∀ k, ¬ m.modules.IsAt importer path k) →
    (∃ e m', m'.modules = m.modules ∧ ∀ ev : Evaluator,
      ev.loadModule importer path token m = .error (.failed e) m') ∨
    ∃ source statements m₁, m.files.read path = .ok source ∧ Parses source statements ∧
      m.modules.Extends m₁.modules ∧ m₁.modules.IsAt importer path m.modules.size ∧
      ∀ ev : Evaluator, ev.loadModule importer path token m = ((do
        ev.runModule m.modules.size statements
        modify fun m' => { m' with active? := some importer, current := m.current }) : Run Unit) m₁

/-- The name of an import is bound to a reference to a module that has not been followed yet. -/
def Machine.BindsImport (m : Machine) (target : ModuleId) (item : ImportItem) : Prop :=
  ∃ id < m.store.heap.imports.size,
    m.frames.local? m.current item.binding.lexeme = some (.imported id) ∧
      m.store.heap.importCell id = ⟨item.name, target, none⟩

namespace Evaluator

open Run

variable {m m' : Machine} {target : ModuleId}

/-! ## Binding the names -/

/-- A name that the module lacks is refused only if the module has come to its end; a binding that
is taken is refused in any case. -/
theorem bindImport_cases (target : ModuleId) (item : ImportItem) (m : Machine) :
    ((m.modules.node target).state = .loaded ∧
      m.frames.binds (m.modules.node target).globals item.name.lexeme = false ∧
      bindImport target item m = .error (.failed (.located .exportNotFound item.name)) m) ∨
    m.frames.binds m.current item.binding.lexeme = true ∧ bindImport target item m =
      .error (.failed (.located .duplicateBinding item.binding)) { m with
        store := { m.store with heap := (m.store.heap.newImport ⟨item.name, target, none⟩).2 } } ∨
    m.frames.binds m.current item.binding.lexeme = false ∧ bindImport target item m =
      .ok () { m with
        store := { m.store with heap := (m.store.heap.newImport ⟨item.name, target, none⟩).2 }
        frames := m.frames.put m.current item.binding.lexeme
          (.imported m.store.heap.imports.size) } := by
  by_cases hlacks : (m.modules.node target).state = .loaded ∧
      (!m.frames.binds (m.modules.node target).globals item.name.lexeme) = true
  · refine Or.inl ⟨hlacks.1, (Bool.not_eq_true' _).mp hlacks.2, ?_⟩
    show (if _ then _ else _ : Run Unit) m = _
    rw [if_pos hlacks]
    rfl
  · right
    have heq : bindImport target item m =
        define item.binding (.imported m.store.heap.imports.size) { m with
          store := { m.store with
            heap := (m.store.heap.newImport ⟨item.name, target, none⟩).2 } } := by
      show (if _ then _ else _ : Run Unit) m = _
      rw [if_neg hlacks]
      rfl
    rw [heq]
    show _ ∧ EStateM.bind (ofExcept (m.frames.newTarget m.current item.binding)) _ _ = _ ∨ _ ∧
      EStateM.bind (ofExcept (m.frames.newTarget m.current item.binding)) _ _ = _
    unfold Frames.newTarget
    cases hbinds : m.frames.binds m.current item.binding.lexeme with
    | true => exact Or.inl ⟨rfl, rfl⟩
    | false => exact Or.inr ⟨rfl, rfl⟩

/-- What binding a name does if it is not refused. -/
theorem bindImport_ok {item : ImportItem} (hok : bindImport target item m = .ok () m') :
    m.frames.binds m.current item.binding.lexeme = false ∧ m' = { m with
      store := { m.store with heap := (m.store.heap.newImport ⟨item.name, target, none⟩).2 }
      frames := m.frames.put m.current item.binding.lexeme
        (.imported m.store.heap.imports.size) } := by
  rcases bindImport_cases target item m with ⟨-, -, hr⟩ | ⟨-, hr⟩ | ⟨hfree, hr⟩
  · rw [hr] at hok
    cases hok
  · rw [hr] at hok
    cases hok
  · rw [hr] at hok
    cases hok
    exact ⟨hfree, rfl⟩

/-- A name that is bound stays so while others are bound after it. -/
theorem bindImport_keeps {item : ImportItem} (hok : bindImport target item m = .ok () m')
    {target' : ModuleId} {item' : ImportItem} (h : m.BindsImport target' item') :
    m'.BindsImport target' item' := by
  obtain ⟨hfree, rfl⟩ := bindImport_ok hok
  obtain ⟨id, hid, hbound, hcell⟩ := h
  refine ⟨id, ?_, ?_, ?_⟩
  · show id < (m.store.heap.imports.push _).size
    rw [Array.size_push]
    exact Nat.lt_succ_of_lt hid
  · have hne : item'.binding.lexeme ≠ item.binding.lexeme := by
      intro heq
      rw [Frames.binds, ← heq, hbound] at hfree
      cases hfree
    show (m.frames.put _ _ _).local? m.current _ = _
    rw [Frames.local?_put, if_neg fun hp => hne hp.2.2]
    exact hbound
  · show (m.store.heap.imports.push _).getD id default = _
    rw [getD_push, if_neg (Nat.ne_of_lt hid)]
    exact hcell

/-- An item that is accepted has its name bound. -/
theorem bindImport_binds {item : ImportItem} (hok : bindImport target item m = .ok () m')
    (hcurrent : m.current < m.frames.frames.size) : m'.BindsImport target item := by
  obtain ⟨-, rfl⟩ := bindImport_ok hok
  refine ⟨m.store.heap.imports.size, ?_, ?_, ?_⟩
  · show _ < (m.store.heap.imports.push _).size
    rw [Array.size_push]
    exact Nat.lt_succ_self _
  · show (m.frames.put _ _ _).local? m.current _ = _
    rw [Frames.local?_put, if_pos ⟨rfl, hcurrent, rfl⟩]
  · show (m.store.heap.imports.push _).getD _ default = _
    rw [getD_push, if_pos rfl]

/-- All names are bound, each to its own reference to the module. -/
theorem bindImports_binds (items : List ImportItem) :
    ∀ {m m' : Machine}, bindImports target items m = .ok () m' →
      m.current < m.frames.frames.size → m'.modules = m.modules ∧
        (∀ item ∈ items, m'.BindsImport target item) ∧
        ∀ target' item', m.BindsImport target' item' → m'.BindsImport target' item' := by
  induction items with
  | nil =>
    intro m m' hok _
    cases hok
    exact ⟨rfl, fun item hitem => absurd hitem List.not_mem_nil, fun _ _ h => h⟩
  | cons item items ih =>
    intro m m' hok hcurrent
    obtain ⟨u, m₁, hfirst, hrest⟩ := Run.bind_ok hok
    have hbound := bindImport_binds hfirst hcurrent
    have hsame : m₁.modules = m.modules ∧ m₁.current < m₁.frames.frames.size := by
      obtain ⟨-, rfl⟩ := bindImport_ok hfirst
      refine ⟨rfl, ?_⟩
      show m.current < (m.frames.put _ _ _).frames.size
      rwa [Frames.put, Array.size_modify]
    obtain ⟨hmodules, hitems, hkeeps⟩ := ih hrest hsame.2
    refine ⟨hmodules.trans hsame.1, fun item' hitem => ?_, fun target' item' h => ?_⟩
    · rcases List.mem_cons.mp hitem with rfl | hitem
      · exact hkeeps target item' hbound
      · exact hitems item' hitem
    · exact hkeeps target' item' (bindImport_keeps hfirst h)

/-- A module that is being loaded is not asked for its names. -/
theorem bindImports_deferred (items : List ImportItem) :
    ∀ {m : Machine}, (m.modules.node target).state = .loading → ∀ name m',
      bindImports target items m ≠ .error (.failed (.located .exportNotFound name)) m' := by
  induction items with
  | nil =>
    intro m _ name m' heq
    cases heq
  | cons item items ih =>
    intro m hloading name m' heq
    change EStateM.bind (bindImport target item) _ m = _ at heq
    rcases bindImport_cases target item m with ⟨hloaded, -⟩ | ⟨-, hr⟩ | ⟨-, hr⟩
    · rw [hloading] at hloaded
      cases hloaded
    · rw [EStateM.bind, hr] at heq
      cases heq
    · rw [EStateM.bind, hr] at heq
      exact ih (by exact hloading) name m' heq

/-! ## Loading the module -/

/-- A module that is in the tree of the importer is linked to the importer and nothing else. -/
theorem loadModule_again (hlinked : m.modules.Linked) {importer : ModuleId}
    (himporter : importer < m.modules.size) {path : Path} {k : ModuleId}
    (hk : m.modules.IsAt importer path k) (token : Token) (ev : Evaluator) :
    ev.loadModule importer path token m =
      .ok () { m with modules := m.modules.addChild importer k } := by
  rcases loadModule_cases importer path token m with ⟨existing, hfound, hload⟩ | ⟨hnone, -⟩
  · obtain ⟨hlt, hpath, hroot⟩ := hlinked.search?_some hfound
    have hsame : existing = k := ModuleTree.IsAt.unique hlinked ⟨hlt, hroot, hpath⟩ hk
    rw [hload, hsame]
  · exact absurd hk.path (hlinked.search?_none himporter hnone hk.root)

/-- The new module of a first import is the one of the importer's tree with the path. -/
theorem isAt_sprout {importer : ModuleId} (himporter : importer < m.modules.size) (path : Path) :
    (m.sprout importer path).2.modules.IsAt importer path m.modules.size := by
  obtain ⟨hpath, hparent⟩ := new_sprout m importer path
  refine ⟨?_, ModuleTree.root_of_some hparent himporter, by rw [hpath]⟩
  rw [size_sprout]
  exact Nat.lt_succ_self _

/-- In a linked tree a path that has a module is not run again, and only a new path is. -/
theorem loadsOnce (hlinked : m.modules.Linked) {importer : ModuleId}
    (himporter : importer < m.modules.size) (path : Path) (token : Token) :
    m.LoadsOnce importer path token where
  again := fun k hk => loadModule_again hlinked himporter hk token
  first := by
    intro hnone
    rcases loadModule_cases importer path token m with ⟨existing, hfound, -⟩ |
      ⟨-, reporter, nextExpr, -, ⟨e, hload⟩ | ⟨source, statements, hread, hparses, hload⟩⟩
    · obtain ⟨hlt, hpath, hroot⟩ := hlinked.search?_some hfound
      exact absurd ⟨hlt, hroot, hpath⟩ (hnone existing)
    · exact Or.inl ⟨e, { m with reporter := reporter, nextExpr := nextExpr }, rfl, hload⟩
    · let m₁ : Machine := { m with reporter := reporter, nextExpr := nextExpr }
      refine Or.inr ⟨source, statements, (m₁.sprout importer path).2, hread, hparses,
        (onward_sprout m₁ importer path).modules, isAt_sprout (m := m₁) himporter path,
        fun ev => ?_⟩
      rw [hload, runImported_run]

/-- What an imported module leaves lies onward of the moment at which it was created. -/
theorem onward_runImported {ev : Evaluator} (h : ev.Proceeds) {importer : ModuleId} {path : Path}
    {statements : List Stmt} (hok : ev.runImported importer path statements m = .ok () m') :
    (m.sprout importer path).2.Onward m' := by
  have hleave := onward_leave (onward_runModule h m.modules.size statements
    (m.sprout importer path).2)
    (f := fun m' => { m' with active? := some importer, current := m.current })
    fun _ => ⟨rfl, .refl _, fun he => he⟩
  rw [← runImported_run, hok] at hleave
  exact hleave

/-- After a load, a module with the path stands among the children of the importer. -/
theorem loadModule_child {depth : Nat} (hlinked : m.modules.Linked) {importer : ModuleId}
    (himporter : importer < m.modules.size) {path : Path} {token : Token}
    (hok : (evaluatorUpTo depth).loadModule importer path token m = .ok () m') :
    ∃ child ∈ (m'.modules.node importer).children,
      (m'.modules.node child).path.components = path.components := by
  rcases loadModule_cases importer path token m with ⟨existing, hfound, hload⟩ |
    ⟨-, reporter, nextExpr, -, ⟨e, hload⟩ | ⟨source, statements, -, -, hload⟩⟩
  · rw [hload] at hok
    cases hok
    obtain ⟨hlt, hpath, -⟩ := hlinked.search?_some hfound
    obtain ⟨_, hnode, hiff, -⟩ := ModuleTree.node_addChild m.modules importer existing importer
    refine ⟨existing, ?_, ?_⟩
    · show existing ∈ ((m.modules.addChild importer existing).node importer).children
      rw [hnode]
      exact (hiff existing).mpr (Or.inr ⟨rfl, himporter, rfl⟩)
    · show ((m.modules.addChild importer existing).node existing).path.components = _
      rw [(ModuleTree.extends_addChild m.modules importer existing).path existing hlt]
      exact hpath
  · rw [hload] at hok
    cases hok
  · rw [hload] at hok
    have honward := onward_runImported (proceeds_evaluatorUpTo depth) hok
    let m₁ : Machine := { m with reporter := reporter, nextExpr := nextExpr }
    have hsize : (m₁.sprout importer path).2.modules.size = m.modules.size + 1 := size_sprout m₁ _ _
    refine ⟨m.modules.size, ?_, ?_⟩
    · refine honward.modules.children importer ?_ _ (child_sprout m₁ path himporter)
      rw [hsize]
      exact Nat.lt_succ_of_lt himporter
    · rw [honward.modules.path m.modules.size (by rw [hsize]; exact Nat.lt_succ_self _)]
      exact congrArg Path.components (new_sprout m₁ importer path).1

end Evaluator

/-! ## Whole imports -/

/-- What an import that has given a value did: it loaded its module, no error had been reported, and
it bound its names to references to the module. -/
theorem Evaluator.importNames_ok {ev : Evaluator} {token : Token} {items : List ImportItem}
    {m m' : Machine} (hok : ev.importNames token items m = .ok () m') :
    ∃ importer m₁ target, m.active? = some importer ∧
      m.files.isFile (importPath (m.modules.node importer).path token.stringValue) = true ∧
      ev.loadModule importer (m.importedPath importer token) token m = .ok () m₁ ∧
      m₁.reporter.hadError = false ∧
      (m₁.modules.findChild? importer (m.importedPath importer token)).or
        (m₁.modules.lookup? (m.importedPath importer token)) = some target ∧
      bindImports target items m₁ = .ok () m' := by
  rcases importNames_cases token items m with ⟨e, -, himport⟩ | ⟨importer, hactive, hfile, himport⟩
  · rw [himport] at hok
    cases hok
  · rw [himport] at hok
    obtain ⟨u, m₁, hload, hbind⟩ := Run.bind_ok hok
    obtain ⟨_, _, hget, hbind⟩ := Run.bind_ok hbind
    cases hget
    dsimp only at hbind
    cases herror : m₁.reporter.hadError with
    | true =>
      rw [herror] at hbind
      cases hbind
    | false =>
      rw [herror] at hbind
      cases htarget : (m₁.modules.findChild? importer (m.importedPath importer token)).or
          (m₁.modules.lookup? (m.importedPath importer token)) with
      | none =>
        rw [htarget] at hbind
        cases hbind
      | some target =>
        rw [htarget] at hbind
        exact ⟨importer, m₁, target, hactive, hfile, hload, herror, htarget, hbind⟩

/-- An import from a module that is still being loaded is not refused for a name that the module
does not have yet. -/
theorem Evaluator.importNames_deferred (ev : Evaluator) {m : Machine} (hlinked : m.modules.Linked)
    {importer : ModuleId} (hactive : m.active? = some importer)
    (himporter : importer < m.modules.size) {token : Token} {k : ModuleId}
    (hk : m.modules.IsAt importer (m.importedPath importer token) k)
    (hloading : (m.modules.node k).state = .loading) (items : List ImportItem) (name : Token)
    (m' : Machine) :
    ev.importNames token items m ≠ .error (.failed (.located .exportNotFound name)) m' := by
  intro heq
  rcases importNames_cases token items m with ⟨e, hcause, himport⟩ | ⟨importer', ha, -, himport⟩
  · rw [himport] at heq
    rcases hcause with rfl | ⟨path, rfl⟩
    · cases heq
    · cases heq
  · obtain rfl : importer = importer' := Option.some.inj (hactive.symm.trans ha)
    rw [himport] at heq
    change EStateM.bind (ev.loadModule importer _ token) _ m = _ at heq
    rw [EStateM.bind, loadModule_again hlinked himporter hk] at heq
    -- The module was only linked, so it is found among the children, in the state it was in.
    obtain ⟨_, hnode, hiff, -⟩ := ModuleTree.node_addChild m.modules importer k importer
    have hmem : k ∈ ((m.modules.addChild importer k).node importer).children := by
      rw [hnode]
      exact (hiff k).mpr (Or.inr ⟨rfl, himporter, rfl⟩)
    have hpath : ((m.modules.addChild importer k).node k).path.components =
        (m.importedPath importer token).components := by
      rw [(ModuleTree.extends_addChild m.modules importer k).path k hk.lt]
      exact hk.path
    have htarget := (hlinked.addChild hk.lt hk.root).target hmem hpath
    have hstate : ((m.modules.addChild importer k).node k).state = .loading := by
      rw [(later_addChild m importer k).states k hk.lt]
      exact hloading
    change bindLoaded importer (m.importedPath importer token) token items
      { m with modules := m.modules.addChild importer k } = _ at heq
    change (if m.reporter.hadError then _ else _ : Run Unit) _ = _ at heq
    cases herror : m.reporter.hadError with
    | true =>
      rw [herror] at heq
      cases heq
    | false =>
      rw [herror] at heq
      dsimp only at heq
      rw [htarget] at heq
      exact bindImports_deferred items hstate name m' heq

section

variable {w : World} {m : Machine} {home : ModuleId} {stack : Stack} {token : Token}
  {items : List ImportItem}

/-- What an import finds at its path once the module is loaded is the module of the importer's tree
that has the path. -/
theorem Ready.target_loaded {uses : List Use} {marks : List Mark}
    (hr : Ready 0 w m home stack uses marks)
    (hfile : m.files.isFile
      (Evaluator.importPath (m.modules.node home).path token.stringValue) = true)
    {levels : Nat} {m₁ : Machine} (hload : (evaluatorUpTo levels).loadModule home
      (m.importedPath home token) token m = .ok () m₁) :
    m₁.modules.Linked ∧ m₁.current < m₁.frames.frames.size ∧
      ∃ target, m₁.modules.IsAt home (m.importedPath home token) target ∧
        (m₁.modules.findChild? home (m.importedPath home token)).or
          (m₁.modules.lookup? (m.importedPath home token)) = some target := by
  -- The load leaves a sound machine in the same place, so its modules are linked.
  have htracks := tracks_loadModule (tracks_evaluatorUnder levels) hr.sound hr.active
    hr.chain.home_lt (FileSystem.spells_canonicalize hfile) token
  have hquiet : (evaluatorUnder .quiet levels).loadModule home (m.importedPath home token) token
      m = .ok () m₁ := by
    rw [evaluatorUnder_quiet]
    exact hload
  obtain ⟨w₁, hadvances, -⟩ := htracks.ok hquiet
  have hr₁ := hr.after hadvances
  obtain ⟨child, hmem, hpath⟩ :=
    Evaluator.loadModule_child hr.sound.linked hr.chain.home_lt hload
  obtain ⟨hlt, hroot⟩ := hr₁.sound.linked.children home child hmem
  exact ⟨hr₁.sound.linked, hr₁.current_lt, child, ⟨hlt, hroot, hpath⟩,
    hr₁.sound.linked.target hmem hpath⟩

/-- An import that completes: in the machine that it leaves no error has been reported, and its
names are bound to the module of the importer's tree with the path. -/
theorem Ready.import_ok (hr : Ready 0 w m home stack (stmtUses stack (.importFrom token items))
      (stmtMarks (.importFrom token items))) {levels : Nat} {flow : Flow} {m' : Machine}
    (hok : execute levels (.importFrom token items) m = .ok flow m') :
    m'.modules.Linked ∧ m'.reporter.hadError = false ∧
      ∃ target, m'.modules.IsAt home (m.importedPath home token) target ∧
        ∀ item ∈ items, m'.BindsImport target item := by
  cases levels with
  | zero =>
    rw [execute] at hok
    cases hok
  | succ levels =>
    rw [execute] at hok
    obtain ⟨u, m₂, himport, hpure⟩ := Run.bind_ok hok
    cases hpure
    obtain ⟨importer, m₁, target, hactive, hfile, hload, herror, htarget, hbind⟩ :=
      Evaluator.importNames_ok himport
    obtain rfl : home = importer := Option.some.inj (hr.active.symm.trans hactive)
    obtain ⟨hlinked, hcurrent, found, hat, hfound⟩ := hr.target_loaded hfile hload
    obtain rfl : found = target := Option.some.inj (hfound.symm.trans htarget)
    obtain ⟨hmodules, hitems, -⟩ := Evaluator.bindImports_binds items hbind hcurrent
    obtain ⟨store, frames, hleft, -⟩ := Evaluator.plain_bindImports found items m₁
    rw [hbind] at hleft
    have hreporter : m'.reporter = m₁.reporter := by
      rw [show m' = _ from hleft]
    rw [hmodules, hreporter]
    exact ⟨hlinked, herror, found, hat, hitems⟩

/-- While the module of the path is still loading an import does not fail for a name that it does
not export yet. -/
theorem Ready.import_deferred
    (hr : Ready 0 w m home stack (stmtUses stack (.importFrom token items))
      (stmtMarks (.importFrom token items))) {k : ModuleId}
    (hk : m.modules.IsAt home (m.importedPath home token) k)
    (hloading : (m.modules.node k).state = .loading) (levels : Nat) (name : Token) (m' : Machine) :
    execute levels (.importFrom token items) m ≠
      .error (.failed (.located .exportNotFound name)) m' := by
  intro heq
  cases levels with
  | zero =>
    rw [execute] at heq
    cases heq
  | succ levels =>
    rw [execute] at heq
    have hne := (evaluatorUpTo levels).importNames_deferred hr.sound.linked hr.active
      hr.chain.home_lt hk hloading items name m'
    rcases Run.bind_error heq with himport | ⟨u, m₁, -, hpure⟩
    · exact hne himport
    · cases hpure

end

end ScriptEngine
