import ScriptEngine.Proofs.Evaluator.Later
import ScriptEngine.Proofs.Evaluator.TwinExpressions

/-!
# Modules in two runs

Twins that have the same modules and files load the same modules, run them to the same end and bind
the same names to import references. This is the only place where import references come from: each
goes to a name that an import statement binds, in the frame in which that statement runs.
-/

namespace ScriptEngine

open Run

variable {σ : Setting} {m n : Machine} {ev ev' : Evaluator}

/-! ## Changes of the modules -/

/-- Both runs have the same surroundings and come to the same ones. -/
theorem Twins.surround (hσ : σ.strict) (h : Twins σ m n) {f : Surroundings → Surroundings}
    {m' n' : Machine} (hm : m'.surroundings = f m.surroundings)
    (hn : n'.surroundings = f n.surroundings) : σ.around m'.surroundings n'.surroundings := by
  rw [hm, hn, h.same hσ]
  exact (σ.around_eq hσ _ _).mpr rfl

/-- Twins with the same surroundings have the same modules. -/
theorem Twins.modules_eq (hσ : σ.strict) (h : Twins σ m n) : n.modules = m.modules :=
  congrArg Surroundings.modules (h.same hσ)

/-- The modules have the same frames as before. -/
structure ModuleTree.SameFrames (t t' : ModuleTree) : Prop where
  size : t'.size = t.size
  globals : ∀ k, (t'.node k).globals = (t.node k).globals
  exports : ∀ k, (t'.node k).exports = (t.node k).exports

/-- A change of a module that keeps its two frames. -/
theorem ModuleTree.sameFrames_modify (t : ModuleTree) (id : ModuleId) {f : ModuleNode → ModuleNode}
    (hf : ∀ node, (f node).globals = node.globals ∧ (f node).exports = node.exports) :
    t.SameFrames (t.modify id f) := by
  have hnode : ∀ k, ((t.modify id f).node k).globals = (t.node k).globals ∧
      ((t.modify id f).node k).exports = (t.node k).exports := by
    intro k
    rw [node_modify]
    split
    · exact hf _
    · exact ⟨rfl, rfl⟩
  exact ⟨size_modify _ _ _, fun k => (hnode k).1, fun k => (hnode k).2⟩

/-- A link between modules keeps all their frames. -/
theorem ModuleTree.sameFrames_addChild (t : ModuleTree) (id child : ModuleId) :
    t.SameFrames (t.addChild id child) := by
  refine t.sameFrames_modify id fun node => ?_
  split <;> exact ⟨rfl, rfl⟩

/-- A machine whose modules keep their frames has grown. -/
theorem Machine.Grown.withModules {t : ModuleTree} (ht : m.modules.SameFrames t) :
    m.Grown (m.withModules t) where
  frames := Nat.le_refl _
  plain := fun _ _ h => h
  heap := .refl _ _
  imports := Nat.le_refl _
  numbers := Nat.le_refl _
  modules := Nat.le_of_eq ht.size.symm
  globals := fun k _ => ht.globals k
  exports := fun k _ => ht.exports k
  added := fun _ hk hle => absurd (ht.size ▸ hk) (Nat.not_lt_of_le hle)

theorem Tidy.withModules (h : Tidy σ m) {t : ModuleTree} (ht : m.modules.SameFrames t) :
    Tidy σ (m.withModules t) := by
  have hg : m.Grown (m.withModules t) := .withModules ht
  have hlt : ∀ {k}, k < t.size → k < m.modules.size := fun hk => ht.size ▸ hk
  refine ⟨h.values, h.heap, h.current.mono hg, h.builtins.mono hg, fun k hk => ?_, fun k hk => ?_⟩
  · show (m.withModules t).Inner (t.node k).globals
    rw [ht.globals]
    exact (h.globals k (hlt hk)).mono hg
  · show (t.node k).exports < _ ∧ _
    rw [Machine.withModules, ht.exports]
    exact h.exports k (hlt hk)

/-- Both runs change their modules in the same way. -/
theorem Twins.withModules (hσ : σ.strict) (h : Twins σ m n) {t : ModuleTree}
    (ht : m.modules.SameFrames t) : Twins σ (m.withModules t) (n.withModules t) :=
  { h with
    tidy := h.tidy.withModules ht
    around := h.surround hσ (f := fun a => { a with modules := t }) rfl rfl }

/-- A machine with one more module, in frames that are new, has grown. -/
theorem Machine.Grown.withModule {t : ModuleTree} {globals exports : FrameId}
    (hadds : m.modules.AddsOne t globals exports) (hexports : m.frames.frames.size ≤ exports)
    {m' : Machine} (hg : m.Grown m') :
    m.Grown (m'.withModules t) where
  frames := hg.frames
  plain := hg.plain
  heap := hg.heap
  imports := hg.imports
  numbers := hg.numbers
  modules := by
    show m.modules.size ≤ t.size
    rw [hadds.size]
    exact Nat.le_succ _
  globals := fun k hk => by
    rw [Machine.withModules, hadds.globals, if_neg (Nat.ne_of_lt hk)]
  exports := fun k hk => by
    rw [Machine.withModules, hadds.exports, if_neg (Nat.ne_of_lt hk)]
  added := fun k hk hle => by
    have hk' : k = m.modules.size := by
      change k < t.size at hk
      rw [hadds.size] at hk
      exact Nat.le_antisymm (Nat.le_of_lt_succ hk) hle
    rw [Machine.withModules, hadds.exports, if_pos hk']
    exact hexports

/-- Both runs add the same module, with new frames for its globals and its exports. -/
theorem Twins.withModule (hσ : σ.strict) (h : Twins σ m n) {t : ModuleTree}
    (hadds : m.modules.AddsOne t m.frames.frames.size (m.frames.frames.size + 1)) :
    Twins σ (m.withModuleFrames.withModules t) (n.withModuleFrames.withModules t) ∧
      m.Grown (m.withModuleFrames.withModules t) := by
  have h₁ : Twins σ (m.withFrame ⟨[], some Machine.builtins⟩) _ :=
    h.withFrame fun name v hv => by simp at hv
  have h₂ : Twins σ ((m.withFrame ⟨[], some Machine.builtins⟩).withFrame ⟨[], none⟩) _ :=
    h₁.withFrame fun name v hv => by simp at hv
  have hg₁ := Machine.Grown.withFrame m ⟨[], some Machine.builtins⟩
  have hg₂ := Machine.Grown.withFrame (m.withFrame ⟨[], some Machine.builtins⟩) ⟨[], none⟩
  have hframes := hg₁.trans hg₂
  have hg : m.Grown (m.withModuleFrames.withModules t) :=
    .withModule hadds (Nat.le_succ _) hframes
  have hsize : m.withModuleFrames.frames.frames.size = m.frames.frames.size + 2 := by
    simp [Machine.withModuleFrames, Machine.withFrame, Frames.add]
  have hcases : ∀ k < t.size, k < m.modules.size ∨ k = m.modules.size := by
    intro k hk
    rw [hadds.size] at hk
    exact Nat.lt_succ_iff_lt_or_eq.mp hk
  -- The globals of the new module are in the first of the two frames, its exports in the second.
  have hglobals : (m.withModuleFrames.withModules t).Inner m.frames.frames.size := by
    refine ⟨Nat.lt_of_lt_of_eq (Nat.lt_add_of_pos_right Nat.two_pos) hsize.symm, fun k hk => ?_⟩
    rw [Machine.withModules, hadds.exports]
    rcases hcases k hk with hlt | rfl
    · rw [if_neg (Nat.ne_of_lt hlt)]
      exact Nat.ne_of_lt (h.tidy.exports k hlt).1
    · rw [if_pos rfl]
      exact Nat.succ_ne_self _
  refine ⟨{ h₂ with
    tidy := ?_
    around := h₂.surround hσ (f := fun a => { a with modules := t }) rfl rfl }, hg⟩
  · refine ⟨h₂.tidy.values, h₂.tidy.heap, h.tidy.current.mono hg, h.tidy.builtins.mono hg,
      fun k hk => ?_, fun k hk => ?_⟩
    · rcases hcases k hk with hlt | rfl
      · rw [hg.globals k hlt]
        exact (h.tidy.globals k hlt).mono hg
      · rw [Machine.withModules, hadds.globals, if_pos rfl]
        exact hglobals
    · rcases hcases k hk with hlt | rfl
      · rw [hg.exports k hlt]
        exact h₂.tidy.exports k hlt
      · rw [Machine.withModules, hadds.exports, if_pos rfl]
        refine ⟨Nat.lt_of_lt_of_eq (Nat.lt_succ_self _) hsize.symm, fun name v hv => ?_⟩
        have hnew : m.frames.frames.size + 1 =
            (m.withFrame ⟨[], some Machine.builtins⟩).frames.frames.size := by
          simp [Machine.withFrame, Frames.add]
        rw [Machine.withModuleFrames, Frames.local?, Machine.withFrame, Frames.frame_add,
          if_pos hnew] at hv
        cases hv

/-- Both runs change what they say in the same way. -/
theorem Twins.withReporter (hσ : σ.strict) (h : Twins σ m n) (f : Reporter → Reporter) :
    Twins σ { m with reporter := f m.reporter } { n with reporter := f n.reporter } :=
  { h with
    tidy := { h.tidy with current := h.tidy.current }
    around := h.surround hσ (f := fun a => { a with reporter := f a.reporter }) rfl rfl }

/-- What is reported is the same in both runs. -/
theorem meets_report (hσ : σ.strict) (h : Twins σ m n) (f : Reporter → Reporter) :
    Meets σ m n (report f) (report f) (fun u => u) fun m' _ => m'.current = m.current :=
  meets_modify (h.withReporter hσ f) (.of_contents rfl rfl rfl (Nat.le_refl _)) rfl

/-- New import references that are alike keep the others alike. -/
theorem AlikeCells.push {a b : Array ImportCell} (h : AlikeCells σ a b) {c d : ImportCell}
    (hcell : AlikeCell σ c d) : AlikeCells σ (a.push c) (b.push d) where
  size := by simp [h.size]
  cell := fun i hi => by
    rw [getD_push, getD_push, h.size]
    split
    · exact hcell
    · next hne =>
      rw [Array.size_push] at hi
      exact h.cell i (by omega)

namespace Evaluator

/-! ## Compiling -/

/-- Compiling gives both runs the same statements, under the same numbers. -/
theorem meets_compile? (hσ : σ.strict) (h : Twins σ m n) (source : String) :
    Meets σ m n (compile? source) (compile? source) (fun s? => s?)
      fun m' s? => m'.current = m.current ∧ ∀ statements, s? = some statements →
        ∃ tokens, Token.scan source = .ok tokens ∧
          (parse m.nextExpr tokens).result = .ok statements := by
  unfold compile?
  cases hscan : Token.scan source with
  | error errors =>
    refine meets_bind (meets_report hσ h _) fun m₁ n₁ _ h₁ _ hc => ?_
    exact meets_pure h₁ rfl ⟨hc, fun _ hs => absurd hs (by simp)⟩
  | ok tokens =>
    refine meets_get ?_
    dsimp only
    rw [show n.nextExpr = m.nextExpr from congrArg Surroundings.nextExpr (h.same hσ)]
    have hnext : Twins σ { m with nextExpr := (parse m.nextExpr tokens).nextId }
        { n with nextExpr := (parse m.nextExpr tokens).nextId } :=
      { h with
        tidy := { h.tidy with current := h.tidy.current }
        around := h.surround hσ
          (f := fun a => { a with nextExpr := (parse m.nextExpr tokens).nextId }) rfl rfl }
    obtain ⟨hcounter, -⟩ := Parser.parse_fresh m.nextExpr (Token.proper_scan hscan)
    refine meets_bind (meets_modify hnext (.of_contents rfl rfl rfl hcounter) rfl :
      Meets σ m n _ _ (fun u => u) fun m' _ => m'.current = m.current) fun m₁ n₁ _ h₁ _ hc₁ => ?_
    cases hparsed : (parse m.nextExpr tokens).result with
    | ok statements =>
      refine meets_pure h₁ rfl ⟨hc₁, fun s hs => ⟨tokens, rfl, ?_⟩⟩
      rw [hparsed, Option.some.inj hs]
    | error errors =>
      refine meets_bind (meets_report hσ h₁ _) fun m₂ n₂ _ h₂ _ hc₂ => ?_
      exact meets_pure h₂ rfl ⟨hc₂.trans hc₁, fun _ hs => absurd hs (by simp)⟩

/-! ## Running a module -/

/-- What halted a module is reported alike. -/
theorem reportHalt_twin (hσ : σ.strict) (h : Twins σ m n) (halt : Halt) :
    Twins σ (reportHalt halt m) (reportHalt halt n) := by
  cases halt with
  | exhausted => exact h
  | failed e => exact h.withReporter hσ fun r => r.stopped e.token? e.message
  | thrown id =>
    -- The message of an error is no import reference, so both runs say the same.
    have hmessage := h.display (h.tidy.heap.errors id)
    have hreport := h.withReporter hσ fun r => r.stopped (m.store.heap.error id).token?
      (m.store.heap.display (m.store.heap.error id).message)
    unfold reportHalt
    dsimp only
    rw [h.error, Relabeling.errorCell_message, hmessage, Relabeling.errorCell_token?,
      σ.relabel_eq hσ]
    rw [show (m.store.heap.error id).token?.map Relabeling.same.token =
      (m.store.heap.error id).token? from Option.map_id' ..]
    exact hreport

/-- A report changes nothing but the reporter. -/
theorem grown_reportHalt (halt : Halt) (m : Machine) : m.Grown (reportHalt halt m) := by
  cases halt with
  | exhausted => exact .refl m
  | failed e => exact .of_contents rfl rfl rfl (Nat.le_refl _)
  | thrown id => exact .of_contents rfl rfl rfl (Nat.le_refl _)

/-- What becomes of a module that was halted is the same in both runs. -/
theorem meets_closing (hσ : σ.strict) (h : Twins σ m n) {halt : Halt}
    (hf : halt.Fits m.store.heap) :
    Meets σ m n (closing halt) (closing (σ.relabel.halt halt)) (fun u => u) fun _ _ => True := by
  rw [σ.relabel_eq hσ, Relabeling.halt_same]
  cases halt with
  | exhausted => exact meets_throw h hf
  | failed e => exact meets_modify (reportHalt_twin hσ h _) (grown_reportHalt _ m) trivial
  | thrown id => exact meets_modify (reportHalt_twin hσ h _) (grown_reportHalt _ m) trivial

/-- The statements of a module do the same in both runs, up to the one that is halted. -/
theorem meets_runTopLevel (hσ : σ.strict) (hev : ev.Alike σ ev') {statements : List Stmt}
    (h : Twins σ m n) (hs : everyStmts σ.part statements) :
    Meets σ m n (ev.runTopLevel statements) (ev'.runTopLevel statements) (fun u => u)
      fun _ _ => True := by
  induction statements generalizing m n with
  | nil => exact meets_pure h rfl trivial
  | cons s rest ih =>
    rw [runTopLevel_cons, runTopLevel_cons]
    have hexecute := hev.execute h hs.1
    rw [σ.relabel_eq hσ, Relabeling.stmt_same] at hexecute
    exact meets_either hexecute (fun _ _ _ h₁ _ _ => ih h₁ hs.2) fun _ _ _ h₁ _ hf =>
      meets_closing hσ h₁ hf

/-- Recording distances keeps the frames of modules. -/
theorem sameFrames_distances (t : ModuleTree) (id : ModuleId) (distances : List (ExprId × Nat)) :
    t.SameFrames (t.modify id fun node =>
      { node with distances := node.distances.insertMany distances }) :=
  t.sameFrames_modify id fun _ => ⟨rfl, rfl⟩

theorem sameFrames_loaded (t : ModuleTree) (id : ModuleId) :
    t.SameFrames (t.modify id fun node => { node with state := .loaded }) :=
  t.sameFrames_modify id fun _ => ⟨rfl, rfl⟩

/-- Running a module does the same in both runs. -/
theorem meets_runModule (hσ : σ.strict) (hev : ev.Alike σ ev') (h : Twins σ m n) {id : ModuleId}
    (hid : id < m.modules.size) {statements : List Stmt} (hs : everyStmts σ.part statements) :
    Meets σ m n (ev.runModule id statements) (ev'.runModule id statements) (fun u => u)
      fun _ _ => True := by
  have hopen : Twins σ { m with active? := some id, current := (m.modules.node id).globals }
      { n with active? := some id, current := (n.modules.node id).globals } := by
    rw [h.trees.globals]
    exact (h.inModule (some id)).inFrame (h.tidy.globals id hid)
  refine meets_bind (meets_modify hopen (.of_contents rfl rfl rfl (Nat.le_refl _)) trivial :
    Meets σ m n _ _ (fun u => u) fun _ _ => True) fun m₁ n₁ _ h₁ _ _ => ?_
  -- The statements run if they have no scope errors; in any case the module counts as loaded then.
  have hclose : ∀ {m₂ n₂ : Machine}, Twins σ m₂ n₂ →
      Meets σ m₂ n₂
        (modify fun m => { m with
          modules := m.modules.modify id fun node => { node with state := .loaded }
          active? := none } : Run Unit)
        (modify fun m => { m with
          modules := m.modules.modify id fun node => { node with state := .loaded }
          active? := none }) (fun u => u) fun _ _ => True := by
    intro m₂ n₂ h₂
    have hloaded := h₂.withModules hσ (sameFrames_loaded m₂.modules id)
    refine meets_modify ?_ ((Machine.Grown.withModules (sameFrames_loaded m₂.modules id)).place
      m₂.active? none m₂.current m₂.current) trivial
    rw [h₂.modules_eq hσ]
    exact hloaded.inModule none
  cases Scope.resolve statements with
  | error errors => exact meets_bind (meets_report hσ h₁ _) fun _ _ _ h₂ _ _ => hclose h₂
  | ok distances =>
    have hrecord := h₁.withModules hσ (sameFrames_distances m₁.modules id distances)
    refine meets_bind (meets_modify ?_ (.withModules (sameFrames_distances _ _ _)) trivial :
      Meets σ m₁ n₁ _ _ (fun u => u) fun _ _ => True) fun m₂ n₂ _ h₂ _ _ => ?_
    · rw [h₁.modules_eq hσ]
      exact hrecord
    · exact meets_bind (meets_runTopLevel hσ hev h₂ hs) fun _ _ _ h₃ _ _ => hclose h₃

/-! ## Adding modules -/

/-- A new root has the same number in both runs. -/
theorem meets_createRoot (hσ : σ.strict) (h : Twins σ m n) (path : Path) :
    Meets σ m n (modifyGet fun m => m.createModule none path)
      (modifyGet fun m => m.createModule none path) (fun k => k)
      fun m' k => k < m'.modules.size := by
  have hcreate : ∀ m : Machine, (m.createModule none path).2 = m.withModuleFrames.withModules
      (m.modules.create none path m.frames.frames.size (m.frames.frames.size + 1)).2 := by
    intro m
    simp [Machine.createModule, Machine.withModuleFrames, Machine.withModules, Machine.withFrame,
      Frames.create, Frames.add]
  obtain ⟨htwins, hg⟩ := h.withModule hσ (m.modules.addsOne_create none path _ _)
  refine meets_modifyGet ?_ ?_ ?_ ?_
  · rw [hcreate, hcreate, h.modules_eq hσ, h.frames, Relabeling.frames_size]
    exact htwins
  · rw [hcreate]
    exact hg
  · show n.modules.size = m.modules.size
    rw [h.trees.size]
  · show m.modules.size < ModuleTree.size (m.modules.create none path _ _).2
    rw [ModuleTree.size_create]
    exact Nat.lt_succ_self _

theorem meets_sprout (hσ : σ.strict) (h : Twins σ m n) (importer : ModuleId) (path : Path) :
    Meets σ m n (modifyGet fun m => m.sprout importer path)
      (modifyGet fun m => m.sprout importer path) (fun k => k)
      fun m' k => k < m'.modules.size := by
  have hsprout : ∀ m : Machine, (m.sprout importer path).2 = m.withModuleFrames.withModules
      (m.modules.sprout importer path m.frames.frames.size (m.frames.frames.size + 1)) := by
    intro m
    simp [Machine.sprout, Machine.createModule, Machine.withModuleFrames, Machine.withModules,
      Machine.withFrame, Frames.create, Frames.add, ModuleTree.sprout, ModuleTree.create,
      ModuleTree.size]
  obtain ⟨htwins, hg⟩ := h.withModule hσ (m.modules.addsOne_sprout importer path _ _)
  refine meets_modifyGet ?_ ?_ ?_ ?_
  · rw [hsprout, hsprout, h.modules_eq hσ, h.frames, Relabeling.frames_size]
    exact htwins
  · rw [hsprout]
    exact hg
  · show n.modules.size = m.modules.size
    rw [h.trees.size]
  · show m.modules.size < (m.modules.sprout importer path _ _).size
    rw [ModuleTree.size_sprout]
    exact Nat.lt_succ_self _

/-- Both runs run a program as the root module. -/
theorem meets_runRoot (hσ : σ.strict) (hev : ev.Alike σ ev') (h : Twins σ m n) (path : Path)
    {statements : List Stmt} (hs : everyStmts σ.part statements) :
    Meets σ m n (ev.runRoot path statements) (ev'.runRoot path statements) (fun u => u)
      fun _ _ => True := by
  have hrun : ∀ {m n : Machine} {root : ModuleId}, Twins σ m n → root < m.modules.size →
      Meets σ m n
        (do
          ev.runModule root statements
          modify fun m => { m with current := Machine.builtins } : Run Unit)
        (do
          ev'.runModule root statements
          modify fun m => { m with current := Machine.builtins }) (fun u => u)
        fun _ _ => True := by
    intro m n root h hroot
    refine meets_bind (meets_runModule hσ hev h hroot hs) fun m₁ n₁ _ h₁ _ _ => ?_
    exact meets_modify (h₁.inFrame h₁.tidy.builtins) (.of_contents rfl rfl rfl (Nat.le_refl _))
      trivial
  refine meets_get ?_
  rw [h.modules_eq hσ]
  cases hlookup : m.modules.lookup? path with
  | some root =>
    have hroot : root < m.modules.size := by
      have hmem := List.mem_of_find?_eq_some hlookup
      simpa using hmem
    exact hrun h hroot
  | none => exact meets_bind (meets_createRoot hσ h path) fun m₁ n₁ root h₁ _ hroot => hrun h₁ hroot

/-- Running an imported module does the same in both runs, which come back to the importer. -/
theorem meets_runImported (hσ : σ.strict) (hev : ev.Alike σ ev') (h : Twins σ m n)
    (importer : ModuleId) (path : Path) {statements : List Stmt}
    (hs : everyStmts σ.part statements) :
    Meets σ m n (ev.runImported importer path statements)
      (ev'.runImported importer path statements) (fun u => u)
      fun m' _ => m'.current = m.current := by
  rw [runImported_eq, runImported_eq]
  refine meets_get ?_
  rw [h.current]
  refine meets_bind (meets_sprout hσ h importer path) fun m₁ n₁ child h₁ hg₁ hchild => ?_
  refine meets_bind (meets_runModule hσ hev h₁ hchild hs) fun m₂ n₂ _ h₂ hg₂ _ => ?_
  refine meets_modify ?_ (.of_contents rfl rfl rfl (Nat.le_refl _)) rfl
  exact (h₂.inFrame (h.tidy.current.mono (hg₁.trans hg₂))).inModule (some importer)

/-! ## Imports -/

/-- With the same surroundings both runs have the same tokens. -/
theorem token_eq (hσ : σ.strict) (t : Token) : σ.relabel.token t = t := by
  rw [σ.relabel_eq hσ]
  rfl

/-- Both runs fail at the same token. -/
theorem meets_refuse {α : Type} {P : Machine → α → Prop} (hσ : σ.strict) (h : Twins σ m n)
    (token : Token) (cause : Cause) :
    Meets σ m n (failAt token cause) (failAt token cause) (fun a => a) P := by
  have hfail := meets_failAt (f := fun a => a) (P := P) h token cause
  rwa [token_eq hσ] at hfail

/-- What stands behind a refusal does not matter. -/
theorem meets_refuse_bind {α β : Type} {x y : α → Run β} {P : Machine → β → Prop}
    (hσ : σ.strict) (h : Twins σ m n) (token : Token) (cause : Cause) :
    Meets σ m n (failAt token cause >>= x) (failAt token cause >>= y) (fun b => b) P := by
  have hfail := meets_failAt_bind (x := x) (y := y) (f := fun b => b) (P := P) h token cause
  rwa [token_eq hσ] at hfail

/-- Loading a module does the same in both runs: it is found in the tree, or read, compiled and
run. -/
theorem meets_loadModule (hσ : σ.strict) (hall : ∀ moment, σ.part moment) (hev : ev.Alike σ ev')
    (h : Twins σ m n) (importer : ModuleId) (path : Path) (token : Token) :
    Meets σ m n (ev.loadModule importer path token) (ev'.loadModule importer path token)
      (fun u => u) fun m' _ => m'.current = m.current := by
  have hmodules := h.modules_eq hσ
  have hfiles : n.files = m.files := congrArg Surroundings.files (h.same hσ)
  refine meets_get ?_
  rw [hmodules, hfiles]
  cases m.modules.search? importer path with
  | some existing =>
    have hlink := m.modules.sameFrames_addChild importer existing
    refine meets_modify ?_ (.withModules hlink) rfl
    rw [hmodules]
    exact h.withModules hσ hlink
  | none =>
    cases m.files.read path with
    | error fault => exact meets_refuse hσ h _ _
    | ok source =>
      refine meets_bind (meets_compile? hσ h source) fun m₁ n₁ s? h₁ _ hc => ?_
      cases s? with
      | none => exact meets_refuse hσ h₁ _ _
      | some statements =>
        refine (meets_runImported hσ hev h₁ importer path (everyStmts_of_forall hall _)).post
          fun m' n' _ _ _ hp => hp.trans hc.1

/-- Both runs make an import reference. -/
theorem meets_newImport (h : Twins σ m n) {c d : ImportCell} (hcell : AlikeCell σ c d) :
    Meets σ m n (onHeap fun h => h.newImport c) (onHeap fun h => h.newImport d) (fun id => id)
      fun m' id => m'.current = m.current ∧ id < m'.store.heap.imports.size := by
  have hle : m.store.heap.imports.size ≤ (m.store.heap.newImport c).2.imports.size := by
    simp [Heap.newImport]
  refine meets_modifyGet ?_ (.withStore (Heap.grows_newImport 0 _ c) hle) h.cells.size ⟨rfl, ?_⟩
  · refine h.withStore (Heap.grows_newImport 0 _ c) hle (h.tidy.heap.of_eq rfl rfl rfl rfl)
      (h.cells.push hcell) ?_
    rw [h.store]
    rfl
  · show m.store.heap.imports.size < (m.store.heap.newImport c).2.imports.size
    simp [Heap.newImport]

/-- Both runs bind a new name to an import reference, in a frame where it may be. -/
theorem meets_defineImport (h : Twins σ m n) (name : Token) {id : ImportId}
    (hid : id < m.store.heap.imports.size) (hname : σ.names m.current name.lexeme) :
    Meets σ m n (define name (.imported id)) (define (σ.relabel.token name) (.imported id))
      (fun u => u) fun m' _ => m'.current = m.current := by
  refine meets_get (meets_get ?_)
  rw [h.current]
  refine meets_bind (f := fun f => f) (P := fun m' f => m' = m ∧
    m.frames.newTarget m.current name = .ok f) (meets_ofExcept h ?_ fun f hf => ⟨rfl, hf⟩) ?_
  · rw [h.frames]
    exact σ.relabel.frames_newTarget _ _ _
  rintro m' n' f ht - ⟨rfl, hf⟩
  have hfree : m'.frames.local? m'.current name.lexeme = none ∧ f = m'.current := by
    unfold Frames.newTarget at hf
    split at hf
    · cases hf
    · next hbinds => exact ⟨by simpa [Frames.binds] using hbinds, (Except.ok.inj hf).symm⟩
  obtain ⟨hfree, rfl⟩ := hfree
  -- The name was bound to nothing, so no binding to something else is lost.
  have hg : m'.Grown (m'.withBinding m'.current name.lexeme (.imported id)) := by
    refine .withBinding fun g x hb => ?_
    obtain ⟨v, hv, hp⟩ := hb
    refine ⟨v, ?_, hp⟩
    rw [Frames.local?_put, if_neg]
    · exact hv
    · rintro ⟨rfl, -, rfl⟩
      rw [hfree] at hv
      cases hv
  exact meets_modify (ht.withBinding hg (.inr ⟨hid, hname, ht.tidy.current⟩)) hg rfl

/-- Binding an imported name does the same in both runs, where a reference may be bound to it. -/
theorem meets_bindImport (hσ : σ.strict) (h : Twins σ m n) (target : ModuleId) {item : ImportItem}
    (hname : σ.names m.current item.binding.lexeme) :
    Meets σ m n (bindImport target item) (bindImport target item) (fun u => u)
      fun m' _ => m'.current = m.current := by
  refine meets_get ?_
  dsimp only
  rw [h.modules_eq hσ, h.frames, Relabeling.frames_binds]
  split
  · exact meets_refuse_bind hσ h _ _
  · refine meets_bind (meets_newImport h ⟨(token_eq hσ _).symm, rfl, fun _ => rfl⟩)
      fun m₁ n₁ id h₁ _ hid => ?_
    have := meets_defineImport h₁ item.binding hid.2 (by rw [hid.1]; exact hname)
    rw [token_eq hσ, hid.1] at this
    exact this

theorem meets_bindImports (hσ : σ.strict) (target : ModuleId) {items : List ImportItem}
    (h : Twins σ m n) (hnames : ∀ item ∈ items, σ.names m.current item.binding.lexeme) :
    Meets σ m n (bindImports target items) (bindImports target items) (fun u => u)
      fun _ _ => True := by
  induction items generalizing m n with
  | nil => exact meets_pure h rfl trivial
  | cons item items ih =>
    refine meets_bind (meets_bindImport hσ h target (hnames item List.mem_cons_self))
      fun m₁ n₁ _ h₁ _ hc => ih h₁ fun item hitem => ?_
    rw [hc]
    exact hnames item (List.mem_cons_of_mem _ hitem)

theorem meets_bindLoaded (hσ : σ.strict) (h : Twins σ m n) (importer : ModuleId) (path : Path)
    (token : Token) {items : List ImportItem}
    (hnames : ∀ item ∈ items, σ.names m.current item.binding.lexeme) :
    Meets σ m n (bindLoaded importer path token items) (bindLoaded importer path token items)
      (fun u => u) fun _ _ => True := by
  refine meets_get ?_
  rw [h.modules_eq hσ, show n.reporter = m.reporter from congrArg Surroundings.reporter (h.same hσ)]
  dsimp only
  split
  · exact meets_refuse_bind hσ h _ _
  · split
    · exact meets_refuse hσ h _ _
    · exact meets_bindImports hσ _ h hnames

/-- Both runs execute an import. -/
theorem meets_importNames (hσ : σ.strict) (hall : ∀ moment, σ.part moment) (hev : ev.Alike σ ev')
    (h : Twins σ m n) (token : Token) {items : List ImportItem}
    (hnames : ∀ item ∈ items, σ.names m.current item.binding.lexeme) :
    Meets σ m n (ev.importNames token items) (ev'.importNames token items) (fun u => u)
      fun _ _ => True := by
  refine meets_bind (meets_activeModule h) ?_
  rintro m' n' importer h' - ⟨rfl, -⟩
  refine meets_get ?_
  rw [h'.modules_eq hσ, show n'.files = m'.files from congrArg Surroundings.files (h'.same hσ)]
  dsimp only
  split
  · exact meets_refuse_bind hσ h' _ _
  · refine meets_bind (meets_loadModule hσ hall hev h' importer _ token) fun m₁ n₁ _ h₁ _ hc => ?_
    refine meets_bindLoaded hσ h₁ importer _ token fun item hitem => ?_
    rw [hc]
    exact hnames item hitem

end Evaluator

end ScriptEngine
