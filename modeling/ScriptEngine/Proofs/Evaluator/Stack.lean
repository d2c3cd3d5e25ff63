import ScriptEngine.Proofs.Evaluator.Later
import ScriptEngine.Proofs.Evaluator.Observer

/-!
# Loads that are under way

While the statements of a module run, they may import another module, whose statements then run
first, and so on. Which modules are being run at a moment is written down nowhere in the machine, so
a watcher is an observer that is told: it is given the modules whose statements are running, the
innermost first, and the modules as they were when it all began.

`UnderWay` is what these have to do with the machine at every moment: modules that were made since
the beginning are in the state of being loaded exactly as long as they are on the stack, and have
been run to their end when they are not; the state of older ones does not change. It holds whatever
else is known of the moments of a run: if no observer can tell that some property of moments is ever
missing, then no watcher can tell that the property and `UnderWay` are (`agreesUpTo`).
-/

namespace ScriptEngine

/-- The modules at the beginning, and the modules whose statements are running. -/
structure Loads where
  begun : ModuleTree
  stack : List ModuleId

/-- The running module is loaded within the others. -/
def Loads.enter (loads : Loads) (m : Machine) : Loads :=
  { loads with stack := m.active?.toList ++ loads.stack }

/-- The loads that are under way while a statement has others executed: an import has those of
another module executed, any other statement its own parts. -/
def Loads.around (loads : Loads) (s : Stmt) (m : Machine) : Loads :=
  match s with
  | .importFrom _ _ => loads.enter m
  | _ => loads

/-- An observer that knows which loads are under way. -/
abbrev Watcher := Loads → Observer

/-- The watcher that never breaks a run off. -/
def Watcher.quiet : Watcher := fun _ => .quiet

mutual

/-- Evaluation under a watcher. -/
def evaluateWithin (o : Watcher) : Nat → Loads → Expr → Run Value
  | 0, _, _ => throw .exhausted
  | depth + 1, loads, e =>
    (o loads).watch (.evaluating e)
      (Evaluator.evaluateStep ⟨evaluateWithin o depth loads, executeWithin o depth loads⟩ e)

/-- Execution under a watcher. -/
def executeWithin (o : Watcher) : Nat → Loads → Stmt → Run Flow
  | 0, _, _ => throw .exhausted
  | depth + 1, loads, s =>
    (o loads).watch (.executing s)
      (Evaluator.executeStep ⟨evaluateWithin o depth loads,
        fun s' m => executeWithin o depth (loads.around s m) s' m⟩ depth s)

end

/-- Evaluation with a bound on the depth, under a watcher. -/
def evaluatorWithin (o : Watcher) (depth : Nat) (loads : Loads) : Evaluator :=
  ⟨evaluateWithin o depth loads, executeWithin o depth loads⟩

/-- The same for the statements of a module that is being loaded. -/
def loaderWithin (o : Watcher) (depth : Nat) (loads : Loads) : Evaluator :=
  ⟨evaluateWithin o depth loads, fun s m => executeWithin o depth (loads.enter m) s m⟩

/-- A watcher that takes no notice of the loads is an observer. -/
theorem within_blind (o : Observer) (depth : Nat) : ∀ loads,
    evaluateWithin (fun _ => o) depth loads = evaluateUnder o depth ∧
      executeWithin (fun _ => o) depth loads = executeUnder o depth := by
  induction depth with
  | zero =>
    refine fun loads => ⟨?_, ?_⟩
    · funext e
      simp [evaluateWithin, evaluateUnder]
    · funext s
      simp [executeWithin, executeUnder]
  | succ depth ih =>
    refine fun loads => ⟨?_, ?_⟩
    · funext e
      rw [evaluateWithin, evaluateUnder, (ih loads).1, (ih loads).2]
    · funext s
      rw [executeWithin, executeUnder, (ih loads).1]
      simp only [fun loads => (ih loads).2]

/-- A watcher that does not look at the loads is an observer. -/
theorem loaderWithin_blind (o : Observer) (depth : Nat) (loads : Loads) :
    loaderWithin (fun _ => o) depth loads = evaluatorUnder o depth := by
  unfold loaderWithin evaluatorUnder
  rw [(within_blind o depth loads).1]
  simp only [fun loads => (within_blind o depth loads).2]

theorem evaluatorWithin_quiet (depth : Nat) (loads : Loads) :
    evaluatorWithin .quiet depth loads = evaluatorUpTo depth := by
  rw [← evaluatorUnder_quiet]
  unfold evaluatorWithin evaluatorUnder Watcher.quiet
  rw [(within_blind .quiet depth loads).1, (within_blind .quiet depth loads).2]

/-- Nothing changes under the quiet watcher. -/
theorem loaderWithin_quiet (depth : Nat) (loads : Loads) :
    loaderWithin .quiet depth loads = evaluatorUpTo depth := by
  rw [← evaluatorUnder_quiet]
  exact loaderWithin_blind .quiet depth loads

/-! ## Loads and the machine -/

/-- What the loads that are under way have to do with the machine. -/
structure UnderWay (files : FileSystem) (loads : Loads) (m : Machine) : Prop where
  files : m.files = files
  grown : loads.begun.Extends m.modules
  range : ∀ k ∈ loads.stack, k < m.modules.size
  once : loads.stack.Nodup
  states : ∀ k < loads.begun.size, (m.modules.node k).state = (loads.begun.node k).state
  running : ∀ k ∈ loads.stack, loads.begun.size ≤ k → (m.modules.node k).state = .loading
  ended : ∀ k < m.modules.size, loads.begun.size ≤ k → k ∉ loads.stack → m.HasRun k
  /-- All but the outermost of the loads are imports that began meanwhile. -/
  nested : ∃ inner root, loads.stack = inner ++ [root] ∧
    ∀ k ∈ inner, loads.begun.size ≤ k ∧ ∃ p, (m.modules.node k).parent? = some p

section

variable {files : FileSystem} {loads : Loads} {m m' : Machine}

/-- Loads under way stay so while none is left over. -/
theorem UnderWay.later (h : UnderWay files loads m) (hl : m.Later m') :
    UnderWay files loads m' where
  files := hl.files.trans h.files
  grown := h.grown.trans hl.modules
  range := fun k hk => Nat.lt_of_lt_of_le (h.range k hk) hl.modules.size
  once := h.once
  states := fun k hk => by
    rw [hl.states k (Nat.lt_of_lt_of_le hk h.grown.size)]
    exact h.states k hk
  running := fun k hk hle => by
    rw [hl.states k (h.range k hk)]
    exact h.running k hk hle
  ended := fun k hk hle hstack => by
    by_cases hlt : k < m.modules.size
    · exact (h.ended k hlt hle hstack).mono hlt hl.toOnward (hl.states k hlt)
    · exact hl.ended k hk (Nat.le_of_not_lt hlt)
  nested := by
    obtain ⟨inner, root, hstack, hinner⟩ := h.nested
    refine ⟨inner, root, hstack, fun k hk => ?_⟩
    have hlt := h.range k (hstack ▸ List.mem_append_left _ hk)
    rw [hl.modules.parent k hlt]
    exact hinner k hk

/-- Which loads are under way does not depend on the place. -/
theorem UnderWay.place (h : UnderWay files loads m) (active? : Option ModuleId)
    (current : FrameId) : UnderWay files loads { m with active? := active?, current := current } :=
  h.later (.of_same rfl rfl fun he => he)

/-- A new module begins to run within the others. -/
theorem UnderWay.sprout (h : UnderWay files loads m) (importer : ModuleId) (path : Path) :
    UnderWay files { loads with stack := m.modules.size :: loads.stack }
      (m.sprout importer path).2 := by
  have honward := Evaluator.onward_sprout m importer path
  have hsize := Evaluator.size_sprout m importer path
  have hold : ∀ k ∈ loads.stack, k ≠ m.modules.size := fun k hk => Nat.ne_of_lt (h.range k hk)
  refine ⟨honward.files.trans h.files, h.grown.trans honward.modules, fun k hk => ?_, ?_,
    fun k hk => ?_, fun k hk hle => ?_, fun k hk hle hstack => ?_, ?_⟩
  · rw [hsize]
    rcases List.mem_cons.mp hk with rfl | hk
    · exact Nat.lt_succ_self _
    · exact Nat.lt_succ_of_lt (h.range k hk)
  · exact List.nodup_cons.mpr ⟨fun hmem => hold _ hmem rfl, h.once⟩
  · rw [Evaluator.state_sprout, if_neg (Nat.ne_of_lt (Nat.lt_of_lt_of_le hk h.grown.size))]
    exact h.states k hk
  · rw [Evaluator.state_sprout]
    rcases List.mem_cons.mp hk with rfl | hk
    · rw [if_pos rfl]
    · rw [if_neg (hold k hk)]
      exact h.running k hk hle
  · have hne : k ≠ m.modules.size := fun heq => hstack (heq ▸ List.mem_cons_self)
    have hlt : k < m.modules.size := by
      rw [hsize] at hk
      exact Nat.lt_of_le_of_ne (Nat.le_of_lt_succ hk) hne
    refine (h.ended k hlt hle fun hmem => hstack (List.mem_cons_of_mem _ hmem)).mono hlt honward ?_
    rw [Evaluator.state_sprout, if_neg hne]
  · obtain ⟨inner, root, hstack, hinner⟩ := h.nested
    refine ⟨m.modules.size :: inner, root, congrArg _ hstack, fun k hk => ?_⟩
    rcases List.mem_cons.mp hk with rfl | hk
    · exact ⟨h.grown.size, importer, (Evaluator.new_sprout m importer path).2⟩
    · rw [honward.modules.parent k (h.range k (hstack ▸ List.mem_append_left _ hk))]
      exact hinner k hk

/-- A root that was there before is run again. -/
theorem UnderWay.root (hfiles : m.files = files) {root : ModuleId} (hroot : root < m.modules.size) :
    UnderWay files ⟨m.modules, [root]⟩ m where
  files := hfiles
  grown := .refl _
  range := fun _ hk => List.mem_singleton.mp hk ▸ hroot
  once := List.nodup_singleton root
  states := fun _ _ => rfl
  running := fun _ hk hle => absurd (List.mem_singleton.mp hk ▸ hroot) (Nat.not_lt_of_le hle)
  ended := fun _ hk hle => absurd hk (Nat.not_lt_of_le hle)
  nested := ⟨[], root, rfl, fun _ hk => absurd hk List.not_mem_nil⟩

/-- A new root begins to run. -/
theorem UnderWay.newRoot (hfiles : m.files = files) (path : Path) :
    UnderWay files ⟨m.modules, [m.modules.size]⟩ (m.createModule none path).2 where
  files := hfiles
  grown := m.modules.extends_create none path _ _
  range := fun k hk => by
    rw [List.mem_singleton.mp hk]
    show m.modules.size < ModuleTree.size (m.modules.create none path _ _).2
    rw [ModuleTree.size_create]
    exact Nat.lt_succ_self _
  once := List.nodup_singleton _
  states := fun k hk => by
    show ((m.modules.create none path _ _).2.node k).state = _
    rw [ModuleTree.node_create_of_lt hk]
  running := fun k hk _ => by
    rw [List.mem_singleton.mp hk]
    show ((m.modules.create none path _ _).2.node m.modules.size).state = .loading
    rw [ModuleTree.node_create_new]
  ended := fun k hk hle hstack => by
    have hlt : k < ModuleTree.size (m.modules.create none path _ _).2 := hk
    rw [ModuleTree.size_create] at hlt
    exact absurd (List.mem_singleton.mpr (Nat.le_antisymm (Nat.le_of_lt_succ hlt) hle)) hstack
  nested := ⟨[], _, rfl, fun _ hk => absurd hk List.not_mem_nil⟩

end

/-! ## Runs that nobody can tell apart -/

/-- The outcome of a run that was broken off with a number that tells by whom. -/
def Spoiled {α : Type} (n : Nat) (r : EStateM.Result Halt Machine α) : Prop :=
  ∃ m, r = .error .exhausted m ∧ m.nextExpr = n

open Classical in
/-- The observer that breaks a run off where a property of moments is missing, and leaves a
number. -/
noncomputable def Observer.guard (P : Moment → Machine → Prop) (n : Nat) : Observer :=
  fun moment m => if P moment m then none else some { m with nextExpr := n }

/-- The watcher keeps quiet at moments with a property. -/
def Watcher.SilentOn (o : Watcher) (P : Loads → Moment → Machine → Prop) : Prop :=
  ∀ loads moment m, P loads moment m → o loads moment m = none

/-- The property is missing at some moment, which every guard of it finds; or else no watcher that
keeps quiet at moments with the property and with loads that are under way changes anything. -/
def Agrees {α : Type} (P : Moment → Machine → Prop) (files : FileSystem) (x : Watcher → Run α)
    (m : Machine) : Prop :=
  (∀ n, Spoiled n (x (fun _ => .guard P n) m)) ∨
    ∀ o : Watcher, o.SilentOn (fun loads moment m => P moment m ∧ UnderWay files loads m) →
      x o m = x .quiet m

section Logic

variable {α β : Type} {P : Moment → Machine → Prop} {files : FileSystem} {m m' : Machine}
  {x : Watcher → Run α}

/-- What a computation is in one machine may be said of what it is in another. -/
theorem Agrees.of_eq {y : Watcher → Run α} (h : Agrees P files y m') (heq : ∀ o, x o m = y o m') :
    Agrees P files x m := by
  rcases h with hspoiled | hsame
  · refine Or.inl fun n => ?_
    rw [heq]
    exact hspoiled n
  · refine Or.inr fun o ho => ?_
    rw [heq, heq]
    exact hsame o ho

/-- Where no part of a program is evaluated there is nothing to watch. -/
theorem agrees_const (r : EStateM.Result Halt Machine α) (hx : ∀ o, x o m = r) :
    Agrees P files x m :=
  Or.inr fun o _ => (hx o).trans (hx .quiet).symm

/-- A guard keeps quiet where it may. -/
theorem silentOn_guard (n : Nat) : Watcher.SilentOn (fun _ => Observer.guard P n)
    fun loads moment m => P moment m ∧ UnderWay files loads m :=
  fun _ _ _ h => if_pos h.1

/-- A choice agrees if its cases do in the machines that they start from. -/
theorem agrees_either {f : Watcher → α → Run β} {g : Watcher → Halt → Run β}
    (hx : Agrees P files x m)
    (hf : ∀ a m', x .quiet m = .ok a m' → Agrees P files (fun o => f o a) m')
    (hg : ∀ halt m', halt ≠ .exhausted → x .quiet m = .error halt m' →
      Agrees P files (fun o => g o halt) m')
    (hexhausted : ∀ o, g o .exhausted = throw .exhausted) :
    Agrees P files (fun o => (x o).either (f o) (g o)) m := by
  rcases hx with hspoiled | hsame
  · refine Or.inl fun n => ?_
    obtain ⟨m', hr, hn⟩ := hspoiled n
    refine ⟨m', ?_, hn⟩
    show (x _).either (f _) (g _) m = _
    rw [Run.either, hr]
    dsimp only
    rw [hexhausted]
    rfl
  -- The first half is the same for all, so the second half starts in the same machine for all.
  · have hrest : ∀ (y : Watcher → Run β) (m' : Machine),
        (∀ o, x o m = x .quiet m → (x o).either (f o) (g o) m = y o m') → Agrees P files y m' →
        Agrees P files (fun o => (x o).either (f o) (g o)) m := by
      intro y m' heq hy
      rcases hy with hspoiled | hsame'
      · refine Or.inl fun n => ?_
        show Spoiled n ((x _).either (f _) (g _) m)
        rw [heq _ (hsame _ (silentOn_guard n))]
        exact hspoiled n
      · refine Or.inr fun o ho => ?_
        show (x o).either (f o) (g o) m = (x .quiet).either (f .quiet) (g .quiet) m
        rw [heq o (hsame o ho), heq .quiet rfl]
        exact hsame' o ho
    cases hr : x .quiet m with
    | ok a m' =>
      refine hrest (fun o => f o a) m' (fun o ho => ?_) (hf a m' hr)
      rw [Run.either, ho, hr]
    | error halt m' =>
      refine hrest (fun o => g o halt) m' (fun o ho => ?_) ?_
      · rw [Run.either, ho, hr]
      · by_cases hne : halt = .exhausted
        · subst hne
          refine agrees_const (.error .exhausted m') fun o => ?_
          rw [hexhausted]
          rfl
        · exact hg halt m' hne hr

theorem agrees_bind {f : Watcher → α → Run β} (hx : Agrees P files x m)
    (hf : ∀ a m', x .quiet m = .ok a m' → Agrees P files (fun o => f o a) m') :
    Agrees P files (fun o => x o >>= f o) m := by
  simp only [Run.bind_eq_either]
  exact agrees_either hx hf (fun halt m' _ _ => agrees_const (.error halt m') fun _ => rfl)
    fun _ => rfl

/-- A change that keeps the counter may come at the end. -/
theorem Agrees.adjust {y : Watcher → Run α} {f : Machine → Machine} (h : Agrees P files y m')
    (hf : ∀ m : Machine, (f m).nextExpr = m.nextExpr) (heq : ∀ o, x o m = Run.adjust f (y o m')) :
    Agrees P files x m := by
  rcases h with hspoiled | hsame
  · refine Or.inl fun n => ?_
    obtain ⟨m₁, hr, hn⟩ := hspoiled n
    refine ⟨f m₁, ?_, (hf m₁).trans hn⟩
    rw [heq, hr]
    rfl
  · refine Or.inr fun o ho => ?_
    rw [heq, heq, hsame o ho]

/-- A moment with the property passes unnoticed; one without it is found by every guard. -/
theorem agrees_watch {loads : Loads} {moment : Moment} (hunder : UnderWay files loads m)
    (hx : Agrees P files x m) :
    Agrees P files (fun o => (o loads).watch moment (x o)) m := by
  have hwatch : ∀ o : Watcher, o loads moment m = none →
      (o loads).watch moment (x o) m = x o m := by
    intro o ho
    rw [Observer.watch, ho]
  by_cases hP : P moment m
  · rcases hx with hspoiled | hsame
    · refine Or.inl fun n => ?_
      have hguard := hwatch (fun _ => .guard P n) (if_pos hP)
      show Spoiled n ((Observer.guard P n).watch moment (x fun _ => .guard P n) m)
      rw [hguard]
      exact hspoiled n
    · refine Or.inr fun o ho => ?_
      show (o loads).watch moment (x o) m = (Watcher.quiet loads).watch moment (x .quiet) m
      rw [hwatch o (ho loads moment m ⟨hP, hunder⟩), hwatch .quiet rfl]
      exact hsame o ho
  · refine Or.inl fun n => ⟨{ m with nextExpr := n }, ?_, rfl⟩
    show Observer.watch (.guard P n) moment (x _) m = _
    rw [Observer.watch, Observer.guard, if_neg hP]

end Logic

/-! ## Parts of a program -/

section Parts

variable {P : Moment → Machine → Prop} {files : FileSystem} {depth : Nat}

/-- The evaluation of the parts of a program is the same for all watchers, whatever loads are under
way. -/
structure AgreesUpTo (P : Moment → Machine → Prop) (files : FileSystem) (depth : Nat) : Prop where
  evaluate : ∀ {loads m} e, UnderWay files loads m →
    Agrees P files (fun o => evaluateWithin o depth loads e) m
  execute : ∀ {loads m} s, UnderWay files loads m →
    Agrees P files (fun o => executeWithin o depth loads s) m

variable (h : AgreesUpTo P files depth)
include h

/-- What is composed agrees in every machine with the same loads under way. -/
theorem Evaluator.Composed.agrees {α : Type} {x : Evaluator → Run α} (hx : Composed x)
    {loads : Loads} : ∀ {m}, UnderWay files loads m →
      Agrees P files (fun o => x (evaluatorWithin o depth loads)) m := by
  have hproceeds : (evaluatorWithin .quiet depth loads).Proceeds := by
    rw [evaluatorWithin_quiet]
    exact proceeds_evaluatorUpTo depth
  induction hx with
  | @basic _ x _ => exact fun _ => agrees_const (x _) fun _ => rfl
  | evaluate e => exact fun hm => h.evaluate e hm
  | execute s => exact fun hm => h.execute s hm
  | either hx _ _ hexhausted ihx ihf ihg =>
    intro m hm
    have hends := hx.proceeds hproceeds m
    refine agrees_either (ihx hm) (fun a m' hr => ?_) (fun halt m' hne hr => ?_) fun o =>
      hexhausted _
    · rw [hr] at hends
      exact ihf a (hm.later hends)
    · rw [hr] at hends
      exact ihg halt hne (hm.later (hends.halted hne))
  | inNewFrame enclosing bindings _ ih =>
    intro m hm
    have hends := Run.proceeds_local (Run.plain_newFrame enclosing bindings).local m
    refine agrees_bind (agrees_const (Run.newFrame enclosing bindings m) fun _ => rfl)
      fun frame m' hr => ?_
    rw [hr] at hends
    exact (ih ((hm.later hends).place m'.active? frame)).adjust
      (f := fun m'' => { m'' with current := m'.current }) (fun _ => rfl) fun o =>
      Run.inFrame_eq frame _ m'
  | inModule id _ ih =>
    intro m hm
    exact (ih (hm.place (some id) m.current)).adjust
      (f := fun m' => { m' with active? := m.active? }) (fun _ => rfl)
      fun o => Run.inModule_eq id _ m

/-! ## Modules -/

/-- The statements of a module run with the module on top of the stack, from first to last. -/
theorem agrees_runTopLevel (statements : List Stmt) {loads : Loads} {id : ModuleId} :
    ∀ {m}, UnderWay files { loads with stack := id :: loads.stack } m → m.active? = some id →
      Agrees P files (fun o => (loaderWithin o depth loads).runTopLevel statements) m := by
  induction statements with
  | nil => exact fun _ _ => agrees_const (.ok () _) fun _ => rfl
  | cons s rest ih =>
    intro m hm hactive
    have henter : loads.enter m = { loads with stack := id :: loads.stack } := by
      rw [Loads.enter, hactive]
      rfl
    simp only [Evaluator.runTopLevel_cons]
    refine agrees_either ((h.execute s hm).of_eq fun o => ?_) (fun flow m' hr => ?_)
      (fun halt m' _ _ => agrees_const (Evaluator.closing halt m') fun _ => rfl) fun _ => rfl
    · show executeWithin o depth (loads.enter m) s m = _
      rw [henter]
    -- The statement comes back to the module, so that the next one finds it on top again.
    · rw [loaderWithin_quiet] at hr
      have hends := (proceeds_evaluatorUpTo depth).execute s m
      have hplace := (returns_evaluatorUpTo depth).execute s m
      rw [hr] at hends hplace
      exact ih (hm.later hends) (hplace.1.trans hactive)

/-- A module that is run agrees if its statements do with one more load under way. -/
theorem agrees_runModule (statements : List Stmt) {loads : Loads} {id : ModuleId} {m : Machine}
    (hm : UnderWay files { loads with stack := id :: loads.stack } m) :
    Agrees P files (fun o => (loaderWithin o depth loads).runModule id statements) m := by
  rcases Evaluator.runModule_cases id statements m with ⟨errors, -, hrun⟩ | ⟨distances, -, hrun⟩
  · exact agrees_const _ fun o => hrun _
  · have htop := agrees_runTopLevel h statements
      (hm.later (Evaluator.later_openModule id distances m)) rfl
    refine (agrees_bind (f := fun _ _ => modify (Evaluator.closeModule id)) htop
      fun _ m' _ => ?_).of_eq fun o => hrun _
    exact agrees_const _ fun _ => rfl

theorem agrees_importNames (token : Token) (items : List ImportItem) {loads : Loads} {m : Machine}
    (hm : UnderWay files loads m) :
    Agrees P files (fun o => (loaderWithin o depth loads).importNames token items) m := by
  have himported : ∀ {m} importer path statements, UnderWay files loads m →
      Agrees P files (fun o => (loaderWithin o depth loads).runImported importer path statements)
        m := by
    intro m importer path statements hm
    have hrun := agrees_runModule h statements (hm.sprout importer path)
    refine (agrees_bind (f := fun _ _ => modify fun m' =>
      { m' with active? := some importer, current := m.current }) hrun fun _ m' _ => ?_).of_eq
        fun o => rfl
    exact agrees_const _ fun _ => rfl
  have hload : ∀ importer path,
      Agrees P files (fun o => (loaderWithin o depth loads).loadModule importer path token) m := by
    intro importer path
    rcases Evaluator.loadModule_cases importer path token m with ⟨existing, -, hload⟩ |
      ⟨-, reporter, nextExpr, herrors, ⟨e, hload⟩ | ⟨source, statements, -, -, hload⟩⟩
    · exact agrees_const _ fun o => hload _
    · exact agrees_const _ fun o => hload _
    · have hcompiled : m.Later { m with reporter := reporter, nextExpr := nextExpr } :=
        .of_same rfl rfl herrors
      exact (himported importer path statements (hm.later hcompiled)).of_eq fun o => hload _
  rcases Evaluator.importNames_cases token items m with ⟨e, -, himport⟩ | ⟨importer, -, -, himport⟩
  · exact agrees_const _ fun o => himport _
  · refine (agrees_bind (f := fun _ _ => Evaluator.bindLoaded importer
      (m.importedPath importer token) token items) (hload importer _) fun _ m' _ => ?_).of_eq
        fun o => himport _
    exact agrees_const _ fun _ => rfl

end Parts

/-- What holds of the parts of a program at one depth holds at the next, and so at every depth. -/
theorem agreesUpTo (P : Moment → Machine → Prop) (files : FileSystem) (depth : Nat) :
    AgreesUpTo P files depth := by
  induction depth with
  | zero =>
    refine ⟨fun e _ => ?_, fun s _ => ?_⟩
    · exact agrees_const _ fun o => by rw [evaluateWithin]
    · exact agrees_const _ fun o => by rw [executeWithin]
  | succ depth ih =>
    refine ⟨fun {loads m} e hm => ?_, fun {loads m} s hm => ?_⟩
    · simp only [evaluateWithin]
      exact agrees_watch hm ((Evaluator.composed_evaluateStep e).agrees ih hm)
    · simp only [executeWithin]
      refine agrees_watch hm ?_
      cases s with
      | importFrom token items =>
        refine agrees_bind (agrees_importNames ih token items hm) fun _ m' _ => ?_
        exact agrees_const _ fun _ => rfl
      | _ => exact (Evaluator.composed_executeStep depth (by simp)).agrees ih hm

end ScriptEngine
