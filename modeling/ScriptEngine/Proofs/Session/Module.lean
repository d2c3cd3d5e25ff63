import ScriptEngine.Proofs.Evaluator.Imported
import ScriptEngine.Proofs.Session.Load

/-!
# Modules in sessions

The modules of a session stand in trees, one for each root that was ever run. Within a tree there is
one module for a path, so its file is run by an import at most once, and every import of the path
comes to that module (`modules_load_once`). Loads may be nested as deep as there are files for each
tree, and no deeper.

The bound is one for each tree and not one for all of them. A function that was made in one tree can
be called while a module of another is being loaded, and what it imports goes to its own tree. So
the same file can be under way once in each of several trees (`loads_nest_across_trees`).

A module is in the state of being loaded from the moment it is made until it has been run. A root
that is run again is not put back into that state, so in its later runs, and only there, it counts
as loaded while its statements run (`running_modules_loading`).
-/

namespace ScriptEngine

/-! ## Loads that are nested -/

/-- The loads that are under way: those in one tree are of different paths, so that there are at
most as many of them in a tree as there are files, not counting the outermost. -/
structure Loads.Nested (files : FileSystem) (loads : Loads) (m : Machine) : Prop where
  range : ∀ k ∈ loads.stack, k < m.modules.size
  paths : loads.stack.Pairwise fun j k => m.modules.root j = m.modules.root k →
    (m.modules.node j).path.components ≠ (m.modules.node k).path.components
  perTree : ∀ root, (loads.stack.filter fun k => m.modules.root k = root).length ≤
    files.filePlaces.length + 1
  total : loads.stack.length ≤ m.modules.roots.length * files.filePlaces.length + 1

section

variable {files : FileSystem} {loads : Loads} {m : Machine}

/-- Imports that are under way come from different files, for each tree. -/
theorem UnderWay.length_le (hu : UnderWay files loads m) (hlinked : m.modules.Linked)
    (himported : m.modules.FromFiles files) {inner trees : List ModuleId}
    (hinner : inner.Sublist loads.stack)
    (hparent : ∀ k ∈ inner, ∃ p, (m.modules.node k).parent? = some p)
    (htrees : ∀ k ∈ inner, m.modules.root k ∈ trees) :
    inner.length ≤ trees.length * files.filePlaces.length := by
  have hspells : ∀ k ∈ inner, files.Spells (m.modules.node k).path := by
    intro k hk
    obtain ⟨p, hp⟩ := hparent k hk
    exact himported k p hp
  have hdistinct : (inner.map fun k => (m.modules.root k, (m.modules.node k).path)).Nodup := by
    refine List.pairwise_map.mpr ((hu.once.sublist hinner).imp_of_mem ?_)
    intro j k hj hk hne heq
    obtain ⟨hroot, hpath⟩ := Prod.mk.inj heq
    exact hne (hlinked.paths j (hu.range j (hinner.subset hj)) k (hu.range k (hinner.subset hk))
      hroot (congrArg Path.components hpath))
  exact FileSystem.length_le_filePlaces htrees hspells hdistinct

/-- In a linked tree the loads under way are nested. -/
theorem UnderWay.nestedLoads (hu : UnderWay files loads m) (hlinked : m.modules.Linked)
    (himported : m.modules.FromFiles files) : loads.Nested files m := by
  obtain ⟨inner, root, hstack, hinner⟩ := hu.nested
  have hsub : inner.Sublist loads.stack := hstack ▸ List.sublist_append_left inner [root]
  refine ⟨hu.range, ?_, fun tree => ?_, ?_⟩
  · refine hu.once.imp_of_mem ?_
    intro j k hj hk hne hroot hpath
    exact hne (hlinked.paths j (hu.range j hj) k (hu.range k hk) hroot hpath)
  -- All but the outermost load are imports, and each of these is of a file of its own.
  · have htree : ∀ k ∈ inner.filter fun k => m.modules.root k = tree,
        m.modules.root k ∈ [tree] := by
      intro k hk
      exact List.mem_singleton.mpr (of_decide_eq_true (List.mem_filter.mp hk).2)
    have hle := hu.length_le hlinked himported (List.filter_sublist.trans hsub)
      (fun k hk => (hinner k (List.mem_of_mem_filter hk)).2) htree
    have hlast := List.length_filter_le (fun k => decide (m.modules.root k = tree)) [root]
    rw [List.length_singleton, Nat.one_mul] at hle
    rw [List.length_singleton] at hlast
    rw [hstack, List.filter_append, List.length_append]
    exact Nat.add_le_add hle hlast
  · have hle := hu.length_le hlinked himported hsub (fun k hk => (hinner k hk).2)
      fun k hk => hlinked.root_mem_roots (hu.range k (hsub.subset hk))
    rw [hstack, List.length_append, List.length_singleton]
    exact Nat.add_le_add_right hle 1

end

/-! ## Imports -/

/-- What an import that is about to be executed comes to: it runs a file only if the tree of the
importer has no module with the path, and if it completes, then it has bound all its names to the
one module of the tree that has the path. -/
def Moment.ImportsOnce (m : Machine) : Moment → Prop
  | .executing (.importFrom token items) => ∃ importer < m.modules.size,
    m.active? = some importer ∧ m.LoadsOnce importer (m.importedPath importer token) token ∧
    ∀ levels flow m', execute levels (.importFrom token items) m = .ok flow m' →
      ∃ target, (∀ k, m'.modules.IsAt importer (m.importedPath importer token) k ↔ k = target) ∧
        ∀ item ∈ items, m'.BindsImport target item
  | _ => True

/-- A foreseen import loads its module at most once. -/
theorem Foreseen.importsOnce {w : World} {moment : Moment} {m : Machine}
    (h : Foreseen w moment m) : moment.ImportsOnce m := by
  obtain ⟨w₀, -, -, home, stack, hr⟩ := h
  cases moment with
  | evaluating e => trivial
  | executing s =>
    cases s with
    | importFrom token items =>
      refine ⟨home, hr.chain.home_lt, hr.active,
        Evaluator.loadsOnce hr.sound.linked hr.chain.home_lt _ _, fun levels flow m' hok => ?_⟩
      obtain ⟨hlinked, -, target, hat, hitems⟩ := hr.import_ok hok
      exact ⟨target, fun k => ⟨fun hk => hk.unique hlinked hat, fun hk => hk ▸ hat⟩, hitems⟩
    | _ => trivial

/-- From now on no import runs the file of a module for its tree. In whatever machine comes later,
as long as the modules are kept and linked, an import of the path within the tree only links the
module. -/
def Machine.RunsNoMore (m : Machine) (k : ModuleId) : Prop :=
  ∀ m' : Machine, m.modules.Extends m'.modules → m'.modules.Linked →
    ∀ importer < m'.modules.size, m'.modules.root importer = m.modules.root k →
      ∀ (path : Path) (token : Token), path.components = (m.modules.node k).path.components →
        ∀ ev : Evaluator, ev.loadModule importer path token m' =
          .ok () { m' with modules := m'.modules.addChild importer k }

/-- No later import within its tree runs the file of a module that is there. -/
theorem Machine.runsNoMore {m : Machine} {k : ModuleId} (hk : k < m.modules.size) :
    m.RunsNoMore k := by
  intro m' hextends hlinked importer himporter hroot path token hpath ev
  refine Evaluator.loadModule_again hlinked himporter ⟨?_, ?_, ?_⟩ token ev
  · exact Nat.lt_of_lt_of_le hk hextends.size
  · rw [hextends.root hk, hroot]
  · rw [hextends.path k hk, hpath]

namespace Session

/-- At every moment of a session the modules are linked, loads are nested within bounds, and each
time that a path is imported in a tree it comes to the one module of the tree that has the path,
which is run once. The modules of one moment are still there at a later one, of the same step or of
another, and between the steps. -/
theorem modules_load_once (files : FileSystem) (clock depth : Nat) (steps : List Step) :
    (ThroughoutWithin files clock depth steps fun loads moment m =>
      m.files = files ∧ m.modules.Linked ∧ (∃ k < m.modules.size, m.active? = some k) ∧
        loads.begun.Extends m.modules ∧ loads.Nested files m ∧
        (∀ k < m.modules.size, m.RunsNoMore k) ∧ moment.ImportsOnce m) ∧
    (∀ (o₁ o₂ : Watcher) (s : Session) (step : Step), o₁.Before o₂ →
      (s.takeWithin o₁ depth step).2.machine.modules.Extends
        (s.takeWithin o₂ depth step).2.machine.modules) ∧
    (∀ r ∈ play depth (start files clock) steps, r.2.machine.modules.Linked) ∧
    ((play depth (start files clock) steps).map (·.2.machine.modules)).Pairwise
      ModuleTree.Extends := by
  obtain ⟨w, -, hthroughout⟩ := throughoutWithin_foreseen files clock depth steps
  have hstart : Sound 0 (world (sources files steps)) (start files clock).machine :=
    sound_start fun path text hread => Or.inr ⟨path, hread⟩
  refine ⟨hthroughout.mono fun loads moment m ⟨hforeseen, hu⟩ => ?_,
    fun o₁ o₂ s step ho => takeWithin_extends ho depth s step, fun r hr => ?_,
    (play_extends depth steps _).2⟩
  · have himports := hforeseen.importsOnce
    obtain ⟨w₀, -, -, home, stack, hready⟩ := hforeseen
    have himported : m.modules.FromFiles files := hu.files ▸ hready.sound.imported
    exact ⟨hu.files, hready.sound.linked, ⟨home, hready.chain.home_lt, hready.active⟩, hu.grown,
      hu.nestedLoads hready.sound.linked himported, fun _ => Machine.runsNoMore, himports⟩
  · obtain ⟨w', hs⟩ := play_sounds depth steps hstart (fun text hmem => Or.inl hmem) r hr
    exact hs.linked

/-- Each of two files imports the other, the one in a function that it leaves behind for the next
module with the same file. -/
def crossingFiles : FileSystem :=
  ⟨[(["a.sss"], .file (some "Map();var w;function h()\x7bfrom './x' import v;\x7dMap=h;clock();")),
    (["x.sss"], .file (some "var v;from './a' import w;"))], []⟩

/-- A function of one tree is called by the root of another. -/
def crossingSteps : List Step :=
  [.source "function f()\x7bfrom './x' import v;\x7dclock=f;", .file ⟨"/a.sss"⟩]

/-- In all trees together, loads of the same path may be nested, and more loads than there are
files and one more: here both files are under way at once in two trees. -/
theorem loads_nest_across_trees :
    ¬ ThroughoutWithin crossingFiles 0 16 crossingSteps fun loads _ m =>
      (loads.stack.map fun k => (m.modules.node k).path.components).Nodup ∨
        loads.stack.length ≤ crossingFiles.filePlaces.length + 1 :=
  not_throughoutWithin _ (by decide +kernel)

end Session

/-! ## Modules that are running -/

/-- What the states of modules tell while loads are under way. A module that was made since they
began is being loaded as long as it is under way, and loaded when it is not. One that is older can
only be the outermost, and is in the state that it was in before. -/
structure Loads.Told (loads : Loads) (m : Machine) : Prop where
  running : ∀ k ∈ loads.stack, loads.begun.size ≤ k → (m.modules.node k).state = .loading
  ended : ∀ k < m.modules.size, loads.begun.size ≤ k → k ∉ loads.stack →
    (m.modules.node k).state = .loaded
  again : ∀ k ∈ loads.stack, k < loads.begun.size → loads.stack.getLast? = some k ∧
    (m.modules.node k).state = (loads.begun.node k).state

/-- While loads are under way the states of modules tell which. -/
theorem UnderWay.told {files : FileSystem} {loads : Loads} {m : Machine}
    (hu : UnderWay files loads m) : loads.Told m where
  running := hu.running
  ended := fun k hk hle hstack => (hu.ended k hk hle hstack).state
  again := by
    intro k hk hlt
    obtain ⟨inner, root, hstack, hinner⟩ := hu.nested
    refine ⟨?_, hu.states k hlt⟩
    rw [hstack] at hk ⊢
    rcases List.mem_append.mp hk with hk | hk
    · exact absurd hlt (Nat.not_lt_of_le (hinner k hk).1)
    · rw [List.getLast?_append, List.mem_singleton.mp hk]
      rfl

/-- An import from a module that is under way and was made meanwhile is not refused for a name that
the module does not have. -/
def Moment.Defers (loads : Loads) (m : Machine) : Moment → Prop
  | .executing (.importFrom token items) => ∀ importer, m.active? = some importer →
    ∀ k ∈ loads.stack, loads.begun.size ≤ k →
      m.modules.IsAt importer (m.importedPath importer token) k → ∀ levels name m',
        execute levels (.importFrom token items) m ≠
          .error (.failed (.located .exportNotFound name)) m'
  | _ => True

/-- No import from a module that is under way is refused for a missing name. -/
theorem UnderWay.defers {files : FileSystem} {loads : Loads} {w : World} {moment : Moment}
    {m : Machine} (hu : UnderWay files loads m) (h : Foreseen w moment m) :
    moment.Defers loads m := by
  obtain ⟨w₀, -, -, home, stack, hr⟩ := h
  cases moment with
  | evaluating e => trivial
  | executing s =>
    cases s with
    | importFrom token items =>
      intro importer hactive k hk hle hat
      obtain rfl : home = importer := Option.some.inj (hr.active.symm.trans hactive)
      exact hr.import_deferred hat (hu.running k hk hle)
    | _ => trivial

namespace Session

/-- At every moment of a session, a module that is under way is being loaded, unless it is the root
and was there before the step; and an import from it is deferred. -/
theorem running_modules_loading (files : FileSystem) (clock depth : Nat) (steps : List Step) :
    ThroughoutWithin files clock depth steps fun loads moment m =>
      loads.Told m ∧ moment.Defers loads m := by
  obtain ⟨w, -, hthroughout⟩ := throughoutWithin_foreseen files clock depth steps
  exact hthroughout.mono fun loads moment m ⟨hforeseen, hu⟩ => ⟨hu.told, hu.defers hforeseen⟩

/-- A library that imports a name from the module that imports it. -/
def cyclicFiles : FileSystem :=
  ⟨[(["index.sss"], .file (some "")),
    (["lib.sss"], .file (some "from './index' import late; export var x;"))], []⟩

/-- The same source is accepted as the first one that a root runs, where the name is looked up
later, and refused as the second, since the root then counts as loaded while it runs. -/
theorem root_run_again_loaded :
    (play 12 (start cyclicFiles 0) [.source "from './lib' import x; var late;"]).map (·.1) = [.ok] ∧
    (play 12 (start cyclicFiles 0)
      [.source "var a;", .source "from './lib' import x; var late;"]).map
        (fun r => (r.1, r.2.machine.reporter.lines)) =
      [(.ok, #[]), (.runtimeFailed,
        #["[line 1] Error at 'late': Unable to find exported item 'late'",
          "[line 1] Error at ''./lib'': Unable to resolve import"])] ∧
    ¬ ThroughoutWithin cyclicFiles 0 12
      [.source "var a;", .source "from './lib' import x; var late;"] fun loads _ m =>
        ∀ k ∈ loads.stack, (m.modules.node k).state = .loading :=
  ⟨by decide +kernel, by decide +kernel, not_throughoutWithin _ (by decide +kernel)⟩

end Session

end ScriptEngine
