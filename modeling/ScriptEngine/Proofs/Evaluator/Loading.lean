import ScriptEngine.Proofs.Evaluator.Importing
import ScriptEngine.Proofs.Evaluator.Subclass

/-!
# Modules at run time

A source that compiles gives statements whose expressions have numbers that were never given
before (`Compiled`), and a program without scope errors has its distances recorded under them in
the module that runs it. So every statement of the module is ready when its turn comes, whatever
else has been run or is still being run. What halts a module is reported in a line that can be
explained.
-/

namespace ScriptEngine

open Scope hiding bind

/-- The numbers of the statements are new, and their marks are proper. -/
structure Compiled (w : World) (m : Machine) (statements : List Stmt) : Prop where
  source : ∃ source first tokens, w.sources source ∧ Token.scan source = .ok tokens ∧
    (parse first tokens).result = .ok statements
  once : (numbers (stmtsMarks statements)).Nodup
  range : ∀ id ∈ numbers (stmtsMarks statements), w.issued ≤ id ∧ id < m.nextExpr
  proper : ∀ k ∈ stmtsMarks statements, k.Proper

/-- Compiled statements stay so in a world with the same sources and numbers. -/
theorem Compiled.mono {w w' : World} {m m' : Machine} {statements : List Stmt}
    (h : Compiled w m statements) (hs : w'.sources = w.sources)
    (hissued : w'.issued = w.issued) (hnext : m.nextExpr ≤ m'.nextExpr) :
    Compiled w' m' statements where
  source := by
    rw [hs]
    exact h.source
  once := h.once
  range := fun id hid =>
    ⟨hissued ▸ (h.range id hid).1, Nat.lt_of_lt_of_le (h.range id hid).2 hnext⟩
  proper := h.proper

/-! ## Lines of diagnostics -/

/-- A line that is added by a report is explained. -/
theorem explained_report (w : World) (r : Reporter) (line : Nat) (place message : String) :
    ∀ l ∈ (r.report line place message).lines, l ∈ r.lines ∨ Explained w.sources l := by
  intro l hl
  rcases Array.mem_push.mp hl with hl | rfl
  · exact Or.inl hl
  · exact Or.inr (Or.inl ⟨toString line ++ ("] Error " ++ (place ++ (": " ++ message))),
      by simp only [String.append_assoc]⟩)

theorem explained_foldl (w : World) {α : Type} {f : Reporter → α → Reporter}
    (hf : ∀ r a, ∀ l ∈ (f r a).lines, l ∈ r.lines ∨ Explained w.sources l) (errors : List α) :
    ∀ r : Reporter, ∀ l ∈ (errors.foldl f r).lines, l ∈ r.lines ∨ Explained w.sources l := by
  induction errors with
  | nil => exact fun r l hl => Or.inl hl
  | cons e errors ih =>
    intro r l hl
    rcases ih (f r e) l hl with hl | hl
    · exact hf r e l hl
    · exact Or.inr hl

theorem explained_stopped (w : World) (r : Reporter) {token? : Option Token} {message : String}
    (h : token? = none → ∃ fault, Blamed w.sources fault ∧ message = fault.message) :
    ∀ l ∈ (r.stopped token? message).lines, l ∈ r.lines ∨ Explained w.sources l := by
  cases token? with
  | some token => exact explained_report w r token.line _ message
  | none =>
    intro l hl
    rcases Array.mem_push.mp hl with hl | rfl
    · exact Or.inl hl
    · exact Or.inr (Or.inr (h rfl))

section

variable {settled : Nat} {w w' : World} {m m' : Machine} {home : ModuleId} {stack : Stack}
  {ev : Observer → Evaluator}

/-- A report with explained lines is an advance. -/
theorem advances_report (hs : Sound settled w m) {f : Reporter → Reporter}
    (hf : ∀ l ∈ (f m.reporter).lines, l ∈ m.reporter.lines ∨ Explained w.sources l) :
    Advances settled m.SamePlace w m w { m with reporter := f m.reporter } :=
  ⟨.of_same w ⟨rfl, rfl, rfl, rfl⟩, hs.of_same ⟨rfl, rfl, rfl, rfl⟩ (Nat.le_refl _) hf, .refl m⟩

/-- A report with explained lines can be followed. -/
theorem tracks_report (hs : Sound settled w m) {f : Reporter → Reporter}
    (hf : ∀ l ∈ (f m.reporter).lines, l ∈ m.reporter.lines ∨ Explained w.sources l) :
    Tracks settled w m (fun _ => Run.report f) fun w' _ _ => w' = w :=
  tracks_modify (advances_report hs hf) rfl

/-- What has halted a module is reported. -/
theorem advances_reportHalt (hs : Sound settled w m) {halt : Halt} (hh : HaltOk w m halt) :
    Advances settled m.SamePlace w m w (Evaluator.reportHalt halt m) := by
  unfold Evaluator.reportHalt
  cases halt with
  | failed e =>
    refine advances_report (f := fun r => r.stopped e.token? e.message) hs
      (explained_stopped w _ fun hnone => ?_)
    cases e with
    | located cause token => cases hnone
    | internal fault => exact ⟨fault, hh, rfl⟩
  | thrown id =>
    refine advances_report (f := fun r => r.stopped (m.store.heap.error id).token? _) hs
      (explained_stopped w _ fun hnone => ?_)
    -- Errors get their place when they are thrown, so a report without one cannot come from here.
    have hsome : (m.store.heap.error id).token?.isSome = true := hh
    rw [hnone] at hsome
    cases hsome
  | exhausted => exact ⟨.refl settled w m, hs, .refl m⟩

/-! ## Compiling -/

/-- Compiling a source can be followed, and what it answers is compiled. -/
theorem tracks_compile? (hs : Sound settled w m) {source : String} (hsource : w.sources source) :
    Tracks settled w m (fun _ => Evaluator.compile? source) fun w' m' statements? =>
      w'.issued = w.issued ∧
        ∀ statements, statements? = some statements → Compiled w' m' statements := by
  unfold Evaluator.compile?
  split
  · next errors _ =>
    refine tracks_bind (tracks_report hs
      (explained_foldl w (fun r e => explained_report w r _ _ _) errors _)) ?_
    rintro w₁ m₁ _ h₁ rfl
    exact tracks_pure h₁.sound ⟨rfl, fun statements h => by cases h⟩
  · next tokens hscan =>
    refine tracks_get ?_
    dsimp only
    obtain ⟨hcounter, hfresh⟩ := Parser.parse_fresh m.nextExpr (Token.proper_scan hscan)
    have hsame : m.SameContents { m with nextExpr := (parse m.nextExpr tokens).nextId } :=
      ⟨rfl, rfl, rfl, rfl⟩
    refine tracks_bind (Q := fun w' m' _ =>
        w' = w ∧ m' = { m with nextExpr := (parse m.nextExpr tokens).nextId })
      (tracks_modify ⟨.of_same w hsame, hs.of_same hsame hcounter fun _ hl => Or.inl hl, .refl m⟩
        ⟨rfl, rfl⟩) ?_
    rintro w₁ m₁ _ h₁ ⟨rfl, rfl⟩
    split
    · next statements hparse =>
      refine tracks_pure h₁.sound ⟨rfl, fun statements' heq => ?_⟩
      cases heq
      have hf := hfresh statements hparse
      refine ⟨⟨source, m.nextExpr, tokens, hsource, hscan, hparse⟩,
        List.nodup_iff_count_le_one.mpr hf.once, fun id hid => ?_, hf.proper⟩
      exact ⟨Nat.le_trans hs.issued (hf.range id hid).1, (hf.range id hid).2⟩
    · next errors _ =>
      refine tracks_bind (tracks_report h₁.sound
        (explained_foldl w₁ (fun r e => explained_report w₁ r _ _ _) errors _)) ?_
      rintro w₂ m₂ _ h₂ rfl
      exact tracks_pure h₂.sound ⟨rfl, fun statements h => by cases h⟩

/-! ## Running a module -/

/-- The statements of a module stand under no scope, so each of them is ready in turn. -/
theorem tracks_runTopLevel (h : Evaluator.Tracks ev) (statements : List Stmt) :
    ∀ {w : World} {m : Machine},
      Ready settled w m home [] (stmtsUses [] statements) (stmtsMarks statements) →
        Tracks settled w m (fun o => (ev o).runTopLevel statements) fun _ _ _ => True := by
  induction statements with
  | nil => exact fun hr => tracks_pure hr.sound trivial
  | cons s rest ih =>
    -- The uses of `rest` stand under no scope either: globals add nothing to the empty stack.
    intro w m hr
    simp only [Evaluator.runTopLevel_cons]
    refine tracksTo_either (h.execute hr.left) (fun w₁ m₁ flow h₁ _ => ?_)
      fun w₁ m₁ halt h₁ hh => ?_
    · exact (ih (hr.after h₁).right).mono (fun _ hk => h₁.kept.trans hk) fun _ _ _ _ hq => hq
    -- A halt other than exhaustion is reported in the place that the statement has come back to.
    · have hclose : halt ≠ .exhausted →
          TracksTo settled m.SamePlace w₁ m₁ (fun _ => modify (Evaluator.reportHalt halt))
            fun _ _ (_ : Unit) => True := by
        intro hne
        have hadvances := advances_reportHalt h₁.sound hh
        have hplace := h₁.kept.resolve_left hne
        exact ⟨w₁, ⟨⟨hadvances.moves, hadvances.sound, hplace.trans hadvances.kept⟩, trivial⟩,
          fun _ _ => rfl⟩
      cases halt with
      | exhausted => exact tracksTo_throw h₁.sound (Or.inl rfl) trivial
      | failed e => exact hclose (by simp)
      | thrown id => exact hclose (by simp)

/-- Statements that have compiled and have no scope errors are ready once their distances are
recorded. -/
theorem ready_recorded (hs : Sound settled w m) {id : ModuleId} (hid : id < m.modules.size)
    {statements : List Stmt} (hc : Compiled w m statements) {distances : List (ExprId × Nat)}
    (hresolve : resolve statements = .ok distances) (hactive : m.active? = some id)
    (hcurrent : m.current = (m.modules.node id).globals) :
    Moves settled w m { w with issued := m.nextExpr } (m.withDistances id distances) ∧
      Ready settled { w with issued := m.nextExpr } (m.withDistances id distances) id []
        (stmtsUses [] statements) (stmtsMarks statements) := by
  have hids : (programUses statements).map (·.id) = numbers (stmtsMarks statements) :=
    stmtsUses_ids [] statements
  have hrange : ∀ u ∈ programUses statements, w.issued ≤ u.id ∧ u.id < m.nextExpr := fun u hu =>
    hc.range u.id (hids ▸ List.mem_map_of_mem hu)
  obtain ⟨rfl, -⟩ := resolve_ok hresolve
  obtain ⟨hm, hsound, hrecorded⟩ := record_spec hs hid (hids ▸ hc.once) hrange
  refine ⟨hm, hsound, hactive, ?_, fun site hsite => absurd hsite (by simp), .empty,
    fun u hu => ⟨(hrange u hu).2, hrecorded u hu, ?_⟩, hc.proper, fun _ decls hmem => ?_⟩
  · exact ⟨Nat.lt_of_lt_of_le hid hm.modules, hcurrent.trans (hm.globals id hid).symm⟩
  · exact ⟨statements, ⟨hc.source, _, hresolve⟩, hu⟩
  · exact absurd hmem (by simp)

/-- Running a module can be followed, wherever it ends. -/
theorem passes_runModule (h : Evaluator.Tracks ev) (hs : Sound settled w m) {id : ModuleId}
    (hid : id < m.modules.size) {statements : List Stmt} (hc : Compiled w m statements) :
    Passes settled w m (fun o => (ev o).runModule id statements) fun _ _ _ => True := by
  -- Both ways end by closing the module, which leaves none active: this is why it only passes.
  have hclose : ∀ {w : World} {m : Machine}, Sound settled w m →
      Passes settled w m (fun _ => modify fun m => { m with
        modules := m.modules.modify id fun node => { node with state := .loaded }
        active? := none }) fun _ _ _ => True := by
    intro w m hs
    have hm : Moves settled w m w (m.withModule id fun node => { node with state := .loaded }) :=
      .withModule w m id (fun _ => rfl) fun _ => rfl
    exact passes_modify (hm.trans (.of_same w ⟨rfl, rfl, rfl, rfl⟩))
      ((hs.withState id .loaded).place none m.current) trivial
  have hplace := hs.place (some id) (m.modules.node id).globals
  refine passes_bind (Q := fun w' m' _ => w' = w ∧
      m' = { m with active? := some id, current := (m.modules.node id).globals })
    (passes_modify (.of_same w ⟨rfl, rfl, rfl, rfl⟩) hplace ⟨rfl, rfl⟩) ?_
  rintro w₁ m₁ _ h₁ ⟨rfl, rfl⟩
  dsimp only
  cases hresolve : resolve statements with
  | error errors =>
    refine passes_bind (tracks_report h₁.sound
      (explained_foldl w₁ (fun r e => explained_report w₁ r _ _ _) errors _)).passes ?_
    exact fun w₂ m₂ _ h₂ _ => hclose h₂.sound
  | ok distances =>
    have hc₁ : Compiled w₁ { m with active? := some id, current := (m.modules.node id).globals }
        statements := hc.mono rfl rfl (Nat.le_refl _)
    obtain ⟨hm₂, hr₂⟩ := ready_recorded hplace hid hc₁ hresolve rfl rfl
    refine passes_bind (Q := fun w' m' _ => w' = _ ∧ m' = _)
      (passes_modify hm₂ hr₂.sound ⟨rfl, rfl⟩) ?_
    rintro w₂ m₂ _ h₂ ⟨rfl, rfl⟩
    refine passes_bind (tracks_runTopLevel h statements hr₂).passes ?_
    exact fun w₃ m₃ _ h₃ _ => hclose h₃.sound

/-- A new root. -/
theorem tracks_createRoot (hs : Sound settled w m) (path : Path) :
    Tracks settled w m (fun _ => modifyGet fun m => m.createModule none path) fun w' m' id =>
      w'.issued = w.issued ∧ m'.nextExpr = m.nextExpr ∧ id < m'.modules.size := by
  obtain ⟨w', hissued, hm, hsound⟩ := newModule_spec hs
    (fun globals exports => m.modules.addsOne_create none path globals exports)
    (fun _ _ => hs.linked.createRoot) fun _ _ => hs.imported.create fun h => by cases h
  have hsame : (m.createModule none path).2 = m.withModuleFrames.withModules
      (m.modules.create none path m.frames.frames.size (m.frames.frames.size + 1)).2 := by
    simp [Machine.createModule, Machine.withModuleFrames, Machine.withModules, Machine.withFrame,
      Frames.create, Frames.add]
  have hadvances : Advances settled m.SamePlace w m w' (m.createModule none path).2 := by
    rw [hsame]
    exact ⟨hm, hsound, rfl, rfl⟩
  refine tracks_modifyGet hadvances ⟨hissued, rfl, ?_⟩
  show m.modules.size < ModuleTree.size (m.modules.create none path _ _).2
  rw [ModuleTree.size_create]
  exact Nat.lt_succ_self _

/-- A link to a module of the same tree is an advance. -/
theorem advances_addChild (hs : Sound settled w m) {importer child : ModuleId}
    (hchild : child < m.modules.size) (hroot : m.modules.root child = m.modules.root importer) :
    Advances settled m.SamePlace w m w
      { m with modules := m.modules.addChild importer child } := by
  -- Children matter to nothing but the search for modules.
  let link : ModuleNode → ModuleNode := fun node =>
    if child ∈ node.children then node else { node with children := node.children ++ [child] }
  have hglobals : ∀ node, (link node).globals = node.globals := by
    intro node
    dsimp only [link]
    split <;> rfl
  have hexports : ∀ node, (link node).exports = node.exports := by
    intro node
    dsimp only [link]
    split <;> rfl
  have hdistances : ∀ node, (link node).distances = node.distances := by
    intro node
    dsimp only [link]
    split <;> rfl
  exact ⟨.withModule w m importer hglobals hdistances,
    hs.withModule importer hglobals hexports hdistances (hs.linked.addChild hchild hroot)
      (hs.imported.addChild importer child), .refl m⟩

/-- The creation of a module on a new path can be followed. -/
theorem tracks_sprout (hs : Sound settled w m) {importer : ModuleId} {path : Path}
    (himporter : importer < m.modules.size) (hspells : m.files.Spells path)
    (hnone : m.modules.search? importer path = none) :
    Tracks settled w m (fun _ => modifyGet fun m => m.sprout importer path) fun w' m' child =>
      w'.issued = w.issued ∧ m'.nextExpr = m.nextExpr ∧ child < m'.modules.size := by
  obtain ⟨w', hissued, hm, hsound⟩ := newModule_spec hs
    (fun globals exports => m.modules.addsOne_sprout importer path globals exports)
    (fun _ _ => hs.linked.sprout himporter fun j _ hroot =>
      hs.linked.search?_none himporter hnone hroot)
    fun _ _ => (hs.imported.create fun _ => hspells).addChild _ _
  have hsame : (m.sprout importer path).2 = m.withModuleFrames.withModules
      (m.modules.sprout importer path m.frames.frames.size (m.frames.frames.size + 1)) := by
    simp [Machine.sprout, Machine.createModule, Machine.withModuleFrames, Machine.withModules,
      Machine.withFrame, Frames.create, Frames.add, ModuleTree.sprout, ModuleTree.create,
      ModuleTree.size]
  have hadvances : Advances settled m.SamePlace w m w' (m.sprout importer path).2 := by
    rw [hsame]
    exact ⟨hm, hsound, rfl, rfl⟩
  refine tracks_modifyGet hadvances ⟨hissued, rfl, ?_⟩
  show m.modules.size < (m.modules.sprout importer path _ _).size
  rw [ModuleTree.size_sprout]
  exact Nat.lt_succ_self _

/-- Running an imported module can be followed. -/
theorem tracks_runImported (h : Evaluator.Tracks ev) (hs : Sound settled w m)
    (hactive : m.active? = some home) (hhome : home < m.modules.size) {path : Path}
    (hspells : m.files.Spells path) (hnone : m.modules.search? home path = none)
    {statements : List Stmt} (hc : Compiled w m statements) :
    Tracks settled w m (fun o => (ev o).runImported home path statements) fun _ _ _ => True := by
  simp only [Evaluator.runImported_eq]
  refine tracks_get ?_
  refine tracks_bind (tracks_sprout hs hhome hspells hnone) ?_
  rintro w₁ m₁ child h₁ ⟨hissued, hnext, hchild⟩
  have hc₁ : Compiled w₁ m₁ statements :=
    hc.mono h₁.moves.sources hissued (Nat.le_of_eq hnext.symm)
  refine tracks_restore (passes_runModule h h₁.sound hchild hc₁)
    (Evaluator.settled_runModule _ _ _).weaken fun w' m' hs' => ?_
  refine ⟨.of_same w' ⟨rfl, rfl, rfl, rfl⟩, hs'.place (some home) m.current, ?_, ?_⟩
  · exact (h₁.kept.1.trans hactive).symm
  · exact h₁.kept.2.symm

/-- Running a program as the root module. -/
theorem passes_runRoot (h : Evaluator.Tracks ev) (hs : Sound settled w m) (path : Path)
    {statements : List Stmt} (hc : Compiled w m statements) :
    Passes settled w m (fun o => (ev o).runRoot path statements) fun _ _ _ => True := by
  have hrun : ∀ {w : World} {m : Machine} {root : ModuleId}, Sound settled w m →
      root < m.modules.size → Compiled w m statements →
      Passes settled w m (fun o => do
        (ev o).runModule root statements
        modify fun m => { m with current := Machine.builtins }) fun _ _ _ => True := by
    intro w m root hs hroot hc
    refine passes_bind (passes_runModule h hs hroot hc) fun w₁ m₁ _ h₁ _ => ?_
    exact passes_modify (.of_same w₁ ⟨rfl, rfl, rfl, rfl⟩)
      (h₁.sound.place m₁.active? Machine.builtins) trivial
  -- Reading the machine first changes nothing; `tracks_get` says so only of what comes back.
  have hget : ∀ (x : Machine → Observer → Run Unit), Passes settled w m (x m) (fun _ _ _ => True) →
      Passes settled w m (fun o => get >>= fun m => x m o) fun _ _ _ => True := fun x hx => hx
  refine hget _ ?_
  cases hlookup : m.modules.lookup? path with
  | some root =>
    have hroot : root < m.modules.size := by
      have := List.mem_of_find?_eq_some hlookup
      simpa using this
    exact hrun hs hroot hc
  | none =>
    refine passes_bind (tracks_createRoot hs path).passes ?_
    rintro w₁ m₁ root h₁ ⟨hissued, hnext, hroot⟩
    exact hrun h₁.sound hroot (hc.mono h₁.moves.sources hissued (Nat.le_of_eq hnext.symm))

/-! ## Imports and exports -/

theorem tracks_loadModule (h : Evaluator.Tracks ev) (hs : Sound settled w m)
    (hactive : m.active? = some home) (hhome : home < m.modules.size) {path : Path}
    (hspells : m.files.Spells path) (token : Token) :
    Tracks settled w m (fun o => (ev o).loadModule home path token) fun _ _ _ => True := by
  refine tracks_get ?_
  split
  · next existing hfound =>
    obtain ⟨hlt, -, hroot⟩ := hs.linked.search?_some hfound
    exact tracks_modify (advances_addChild hs hlt hroot) trivial
  · next hnone =>
    split
    · exact tracks_failAt hs _ _
    · next source hread =>
      -- The text of a file is one of the sources, whichever module asks for it.
      have hsame : ∀ statements? m', Evaluator.compile? source m = .ok statements? m' →
          m'.modules = m.modules ∧ m'.files = m.files := by
        intro statements? m' heq
        obtain ⟨_, reporter, nextExpr, hok, -⟩ := Evaluator.compile?_spec source m
        rw [heq] at hok
        cases hok
        exact ⟨rfl, rfl⟩
      refine tracks_bind ((tracks_compile? hs (hs.files path source hread)).also hsame) ?_
      rintro w₁ m₁ statements? h₁ ⟨⟨-, hcompiled⟩, hmodules, hfiles⟩
      cases statements? with
      | none => exact tracks_failAt h₁.sound _ _
      | some statements =>
        rw [← hmodules] at hhome hnone
        rw [← hfiles] at hspells
        exact tracks_runImported h h₁.sound (h₁.kept.1.trans hactive) hhome hspells hnone
          (hcompiled statements rfl)

/-- Binding an imported name can be followed, and it is bound then. -/
theorem tracks_bindImport {uses : List Use} {marks : List Mark}
    (hr : Ready settled w m home stack uses marks) (target : ModuleId) (item : ImportItem) :
    Tracks settled w m (fun _ => Evaluator.bindImport target item) fun _ m' _ =>
      m'.frames.binds m'.current item.binding.lexeme = true := by
  have hbind : Tracks settled w m (fun _ => do
      let id ← Run.onHeap fun h => h.newImport ⟨item.name, target, none⟩
      Run.define item.binding (.imported id)) fun _ m' _ =>
        m'.frames.binds m'.current item.binding.lexeme = true := by
    refine tracks_bind (tracks_onHeap hr.sound (Heap.grows_newImport _ _ _)
      (hr.sound.heap.of_eq rfl rfl rfl rfl)) fun w₁ m₁ id h₁ _ => ?_
    have hr₁ := hr.after h₁
    refine (tracks_define hr₁.sound hr₁.not_sealed (v := .imported id) trivial).post ?_
    rintro w₂ m₂ _ h₂ ⟨rfl, rfl⟩
    exact binds_withBinding hr₁.sound (hr₁.chain.origin hr₁.sound) _ _
  refine tracks_get ?_
  dsimp only
  split
  · exact tracks_failAt_bind hr.sound _ _ _
  · exact hbind

theorem tracks_bindImports {uses : List Use} {marks : List Mark} (target : ModuleId)
    (items : List ImportItem) :
    ∀ {w : World} {m : Machine}, Ready settled w m home stack uses marks →
      Tracks settled w m (fun _ => Evaluator.bindImports target items) fun _ m' _ =>
        ∀ item ∈ items, m'.frames.binds m'.current item.binding.lexeme = true := by
  induction items with
  | nil => exact fun hr => tracks_pure hr.sound (by simp)
  | cons item items ih =>
    intro w m hr
    refine tracks_bind (tracks_bindImport hr target item) fun w₁ m₁ _ h₁ hbound => ?_
    refine (ih (hr.after h₁)).post fun w₂ m₂ _ h₂ hrest item' hitem => ?_
    rcases List.mem_cons.mp hitem with rfl | hitem
    -- Later items go into the same frame and do not take the first one out.
    · rw [h₂.kept.2]
      exact h₂.moves.binds _ _ hbound
    · exact hrest item' hitem

theorem tracks_importNames (h : Evaluator.Tracks ev) {path : Token} {items : List ImportItem}
    (hr : Ready settled w m home stack (stmtUses stack (.importFrom path items))
      (stmtMarks (.importFrom path items))) :
    Tracks settled w m (fun o => (ev o).importNames path items) fun w' m' _ =>
      Chain w' m' home m'.current (stack.extend (added (.importFrom path items))) := by
  refine tracks_read (Evaluator.activeModule_eq hr.active) (tracks_get ?_)
  dsimp only
  split
  · exact tracks_failAt_bind hr.sound _ _ _
  next hfile =>
  have hspells := FileSystem.spells_canonicalize (by simpa using hfile)
  refine tracks_bind (tracks_loadModule h hr.sound hr.active hr.chain.home_lt hspells path)
    fun w₁ m₁ _ h₁ _ => ?_
  have hr₁ := hr.after h₁
  refine tracks_get ?_
  split
  · exact tracks_failAt_bind h₁.sound _ _ _
  split
  · exact tracks_failAt h₁.sound _ _
  · next target _ =>
    refine (tracks_bindImports target items hr₁).post fun w₂ m₂ _ h₂ hbound => ?_
    refine (hr₁.after h₂).chain.extend fun entry hentry _ => ?_
    obtain ⟨name, hname, rfl⟩ := mem_readyNames hentry
    obtain ⟨item, hitem, rfl⟩ := List.mem_map.mp hname
    exact hbound item hitem

/-- What a statement has bound stays bound in an advance. -/
theorem Ends.mono {s : Stmt} {flow : Flow} (h : Ends home stack s w m flow)
    (ha : Advances settled m.SamePlace w m w' m') : Ends home stack s w' m' flow := by
  cases flow with
  | normal =>
    show Chain w' m' home m'.current _
    rw [ha.kept.2]
    exact Chain.mono h ha.moves
  | returned v => exact ValueOk.mono h ha.moves

theorem tracks_exportDeclared (h : Evaluator.Tracks ev) {inner : Stmt}
    (hr : Ready settled w m home stack (stmtUses stack inner) (stmtMarks inner)) :
    Tracks settled w m (fun o => (ev o).exportDeclared inner) (Ends home stack inner) := by
  refine tracks_bind (h.execute hr) fun w₁ m₁ flow h₁ hflow => ?_
  have hr₁ := hr.after h₁
  refine tracks_read (Evaluator.activeModule_eq hr₁.active) (tracks_get ?_)
  dsimp only
  split
  · next name _ =>
    split
    · refine tracks_bind (tracks_nearest h₁.sound _ name) ?_
      rintro w₂ m₂ v h₂ ⟨rfl, rfl, hv⟩
      have hexports : ¬ w₂.Sealed (m₂.modules.node home).exports :=
        not_sealed_of_origin (h₂.sound.exports home hr₁.chain.home_lt).1
          fun site hsite => absurd hsite (by simp)
      have hput : Advances settled m₂.SamePlace w₂ m₂ w₂
          (m₂.withBinding (m₂.modules.node home).exports name.lexeme v) :=
        ⟨.withBinding hexports _ _, h₂.sound.withBinding hexports (hv.withBinding hexports _),
          .refl _⟩
      -- A name among the exports takes no other away, so the statement has still ended as it had.
      refine tracks_bind (Q := fun w' m' _ => Ends home stack inner w' m' flow)
        (tracks_modify hput (hflow.mono hput)) fun w₃ m₃ _ h₃ hends => ?_
      exact tracks_pure h₃.sound hends
    · exact tracks_pure h₁.sound hflow
  · exact tracks_pure h₁.sound hflow

end

end ScriptEngine
