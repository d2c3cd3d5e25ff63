import ScriptEngine.Proofs.Evaluator.Twins

/-!
# Names and import references in two runs

Twins find the same under the same name, and following an import reference leads both to the same
value. What a reference last saw is written by each run on its own way and read by neither.
-/

namespace ScriptEngine

open Run

variable {σ : Setting} {m n : Machine}

/-! ## The active module -/

theorem meets_activeModule (h : Twins σ m n) :
    Meets σ m n activeModule activeModule (fun k => k)
      fun m' k => m' = m ∧ m.active? = some k := by
  refine meets_get ?_
  rw [h.active]
  cases m.active? with
  | some k => exact meets_pure h rfl ⟨rfl, rfl⟩
  | none => exact meets_fail h (.internal .noActiveModule)

/-- Both runs have the same frame of globals. -/
theorem meets_globals (h : Twins σ m n) :
    Meets σ m n globals globals (fun f => f) fun m' _ => m' = m := by
  refine meets_bind (meets_activeModule h) ?_
  rintro m' n' k ht - ⟨rfl, -⟩
  exact meets_get (meets_pure ht (ht.trees.globals k) rfl)

/-- A number that is known has the same distance in both runs. -/
theorem meets_distance? (h : Twins σ m n) {id : ExprId} (hid : σ.known id) :
    Meets σ m n (distance? id) (distance? (σ.relabel.number id)) (fun d => d)
      fun m' _ => m' = m := by
  refine meets_bind (meets_activeModule h) ?_
  rintro m' n' k ht - ⟨rfl, -⟩
  exact meets_get (meets_pure ht (ht.trees.distances k id hid) rfl)

/-! ## Reading and writing names -/

/-- What is read at a distance is bound in some frame. -/
theorem ok_of_getAt {fs : Frames} {f : FrameId} {distance : Nat} {name : String} {v : Value}
    (h : fs.getAt f distance name = .ok v) : ∃ g, fs.local? g name = some v := by
  unfold Frames.getAt at h
  cases ha : fs.ancestor f distance with
  | error e =>
    rw [ha] at h
    cases h
  | ok g =>
    rw [ha] at h
    refine ⟨g, ?_⟩
    dsimp only [bind, Except.bind] at h
    cases hl : fs.local? g name with
    | none =>
      rw [hl] at h
      cases h
    | some w =>
      rw [hl] at h
      cases h
      rfl

/-- What is read by name is bound in some frame. -/
theorem ok_of_get {fs : Frames} {f : FrameId} {name : Token} {v : Value}
    (h : fs.get f name = .ok v) : ∃ g, fs.local? g name.lexeme = some v := by
  unfold Frames.get at h
  cases hh : fs.holder? f name.lexeme with
  | none =>
    rw [hh] at h
    cases h
  | some g =>
    rw [hh, Option.bind_some] at h
    refine ⟨g, ?_⟩
    cases hl : fs.local? g name.lexeme with
    | none =>
      rw [hl] at h
      cases h
    | some w =>
      rw [hl] at h
      cases h
      rfl

/-- A name that is looked up has the same value in both runs, or fails in the same way. -/
theorem meets_lookUp (h : Twins σ m n) {id : ExprId} (hid : σ.known id) (name : Token) :
    Meets σ m n (lookUp id name) (lookUp (σ.relabel.number id) (σ.relabel.token name))
      σ.relabel.value fun m' v => σ.Seen m' v := by
  refine meets_bind (meets_distance? h hid) ?_
  rintro m' n' d? ht - rfl
  cases d? with
  | some d =>
    refine meets_get (meets_ofExcept ht ?_ fun v hv => ?_)
    · rw [ht.current, ht.frames]
      exact σ.relabel.frames_getAt _ _ _ _
    · obtain ⟨g, hg⟩ := ok_of_getAt hv
      exact ht.seen hg
  | none =>
    refine meets_bind (meets_globals ht) ?_
    rintro m₁ n₁ f ht₁ - rfl
    refine meets_get (meets_ofExcept ht₁ ?_ fun v hv => ?_)
    · rw [ht₁.frames]
      exact σ.relabel.frames_get _ _ _
    · obtain ⟨g, hg⟩ := ok_of_get hv
      exact ht₁.seen hg

/-- Writing to a frame that both runs choose alike leaves twins. -/
theorem meets_write (h : Twins σ m n) {target target' : Frames → Except RuntimeError FrameId}
    (htarget : target' n.frames = σ.relabel.except (fun f => f) (target m.frames)) (name : Token)
    {v : Value} (hv : σ.Plain m v) :
    Meets σ m n (write target name v) (write target' (σ.relabel.token name) (σ.relabel.value v))
      (fun u => u)
      fun m' _ => ∃ f, target m.frames = .ok f ∧ m' = m.withBinding f name.lexeme v := by
  refine meets_get ?_
  refine meets_bind (f := fun f => f) (P := fun m' f => m' = m ∧ target m.frames = .ok f)
    (meets_ofExcept h htarget fun f hf => ⟨rfl, hf⟩) ?_
  rintro m' n' f ht - ⟨rfl, hf⟩
  obtain ⟨htwins, hg⟩ := ht.withPlain f name.lexeme hv
  exact meets_modify htwins hg ⟨f, hf, rfl⟩

/-- A binding is found in the frame that it was put into. -/
theorem local?_withBinding {f : FrameId} (hf : f < m.frames.frames.size) (name : String)
    (v : Value) : (m.withBinding f name v).frames.local? f name = some v := by
  rw [Machine.withBinding, Frames.local?_put, if_pos ⟨rfl, hf, rfl⟩]

/-- Both runs bind a new name, which is then bound to no import reference. -/
theorem meets_define (h : Twins σ m n) (name : Token) {v : Value} (hv : σ.Plain m v) :
    Meets σ m n (define name v) (define (σ.relabel.token name) (σ.relabel.value v)) (fun u => u)
      fun m' _ => m'.current = m.current ∧ m'.frames.BindsPlain m'.current name.lexeme := by
  refine meets_get (Meets.post (meets_write h ?_ name hv) ?_)
  · rw [h.current, h.frames]
    exact σ.relabel.frames_newTarget _ _ _
  · rintro m' n' u - - ⟨f, hf, rfl⟩
    have hcurrent : f = m.current := by
      unfold Frames.newTarget at hf
      split at hf
      · cases hf
      · exact (Except.ok.inj hf).symm
    subst hcurrent
    exact ⟨rfl, v, local?_withBinding h.tidy.current.1 _ _, hv.isImported⟩

/-- An assignment to a name does the same in both runs. -/
theorem meets_assign (h : Twins σ m n) {id : ExprId} (hid : σ.known id) (name : Token) {v : Value}
    (hv : σ.Plain m v) :
    Meets σ m n (assign id name v)
      (assign (σ.relabel.number id) (σ.relabel.token name) (σ.relabel.value v)) (fun u => u)
      fun _ _ => True := by
  refine meets_bind (meets_distance? h hid) ?_
  rintro m' n' d? ht - rfl
  cases d? with
  | some d =>
    refine meets_get (Meets.post (meets_write ht ?_ name hv) fun _ _ _ _ _ _ => trivial)
    rw [ht.current, ht.frames]
    exact σ.relabel.frames_targetAt _ _ _ _
  | none =>
    refine meets_bind (meets_globals ht) ?_
    rintro m₁ n₁ f ht₁ - rfl
    refine Meets.post (meets_write ht₁ ?_ name hv) fun _ _ _ _ _ _ => trivial
    rw [ht₁.frames]
    exact σ.relabel.frames_target _ _ _

/-! ## Import references -/

/-- Import references of twins are alike. -/
theorem Twins.cell (h : Twins σ m n) {id : ImportId} (hid : id < m.store.heap.imports.size) :
    AlikeCell σ (m.store.heap.importCell id) (n.store.heap.importCell id) :=
  h.cells.cell id hid

theorem AlikeCells.refresh {a b : Array ImportCell} (h : AlikeCells σ a b) (id : ImportId)
    (v : Value) :
    AlikeCells σ (a.modify id fun cell => { cell with cache? := some v })
      (b.modify id fun cell => { cell with cache? := some (σ.relabel.value v) }) where
  size := by
    rw [Array.size_modify, Array.size_modify]
    exact h.size
  cell := fun i hi => by
    rw [Array.size_modify] at hi
    rw [getD_modify, getD_modify, h.size]
    have hcell := h.cell i hi
    by_cases hsame : i = id ∧ id < a.size
    · rw [if_pos hsame, if_pos hsame]
      exact ⟨hcell.name, hcell.home, fun _ => rfl⟩
    · rw [if_neg hsame, if_neg hsame]
      exact hcell

/-- Both runs remember what they saw through a reference. -/
theorem meets_refreshImport (h : Twins σ m n) (id : ImportId) (v : Value) :
    Meets σ m n (modifyHeap fun h => h.refreshImport id v)
      (modifyHeap fun h => h.refreshImport id (σ.relabel.value v)) (fun u => u)
      fun m' _ => m'.frames = m.frames := by
  have hsize : (m.store.heap.refreshImport id v).imports.size = m.store.heap.imports.size := by
    simp [Heap.refreshImport]
  refine meets_modify (h.withStore (Heap.grows_refreshImport 0 _ id v)
    (Nat.le_of_eq hsize.symm) (h.tidy.heap.of_eq rfl rfl rfl rfl) (h.cells.refresh id v) ?_)
    (.withStore (Heap.grows_refreshImport 0 _ id v) (Nat.le_of_eq hsize.symm)) rfl
  rw [h.store]
  rfl

/-- Following one reference gives the same in both runs, whatever each has remembered. -/
theorem meets_resolveImport (h : Twins σ m n) {id : ImportId}
    (hid : id < m.store.heap.imports.size) :
    Meets σ m n (resolveImport id) (resolveImport id) σ.relabel.value
      fun m' v => σ.Seen m' v := by
  have hcell := h.cell hid
  refine meets_get ?_
  dsimp only
  rw [h.local?, h.trees.globals, hcell.home, hcell.name, Relabeling.token_lexeme]
  cases hv : m.frames.local? (m.modules.node (m.store.heap.importCell id).home).globals
      (m.store.heap.importCell id).name.lexeme with
  | none =>
    exact meets_failAt h _ _
  | some v =>
    have hseen := h.seen hv
    refine meets_bind (meets_refreshImport h id v) fun m' n' _ ht hg _ => ?_
    exact meets_pure ht rfl (hseen.mono hg)

/-- Following a chain of references gives the same in both runs, and ends at no reference. -/
theorem meets_derefUpTo (steps : Nat) : ∀ {m n : Machine} {v : Value}, Twins σ m n →
    σ.Seen m v →
      Meets σ m n (derefUpTo steps v) (derefUpTo steps (σ.relabel.value v)) σ.relabel.value
        fun m' w => σ.Plain m' w := by
  induction steps with
  | zero =>
    intro m n v h hv
    rcases hv with hv | hv
    · cases v with
      | imported id => exact hv.elim
      | _ => exact meets_pure h rfl hv
    · cases v with
      | imported id =>
        refine meets_heap ?_
        rw [(h.cell hv).name]
        exact meets_failAt h _ _
      | _ => exact hv.elim
  | succ steps ih =>
    intro m n v h hv
    rcases hv with hv | hv
    · cases v with
      | imported id => exact hv.elim
      | _ => exact meets_pure h rfl hv
    · cases v with
      | imported id =>
        exact meets_bind (meets_resolveImport h hv) fun m' n' w ht _ hw => ih ht hw
      | _ => exact hv.elim

/-- Behind a chain of import references, both runs find the same value, which is none. -/
theorem meets_deref (h : Twins σ m n) {v : Value} (hv : σ.Seen m v) :
    Meets σ m n (deref v) (deref (σ.relabel.value v)) σ.relabel.value fun m' w => σ.Plain m' w :=
  meets_derefUpTo maxImportSteps h hv

/-- Being no import reference does not depend on where a machine stands. -/
theorem placeless_plain : Placeless fun m v => σ.Plain m v :=
  fun _ _ _ _ h => h

/-- Using a module through a reference does the same in both runs. -/
theorem meets_throughImport (h : Twins σ m n) {id : ImportId}
    (hid : id < m.store.heap.imports.size) {use use' : Value → Run Value}
    (huse : ∀ m' n' v, Twins σ m' n' → m.Grown m' → σ.Plain m' v →
      Meets σ m' n' (use v) (use' (σ.relabel.value v)) σ.relabel.value fun m' w => σ.Plain m' w) :
    Meets σ m n (throughImport id use) (throughImport id use') σ.relabel.value
      fun m' w => σ.Plain m' w := by
  refine meets_bind (meets_deref h (v := .imported id) (.inr hid)) fun m₁ n₁ target ht₁ hg₁ hp => ?_
  refine meets_heap ?_
  rw [(ht₁.cell (Nat.lt_of_lt_of_le hid hg₁.imports)).home]
  refine meets_bind (f := σ.relabel.value) (meets_inModule ht₁ (placeless_plain (σ := σ)) ?_)
    fun m₂ n₂ result ht₂ hg₂ hr => ?_
  · exact huse _ _ target (ht₁.inModule _) (hg₁.place m.active? _ m.current _) hp
  · refine meets_bind (meets_refreshImport ht₂ id result) fun m₃ n₃ _ ht₃ hg₃ _ => ?_
    exact meets_pure ht₃ rfl (hr.mono hg₃)

end ScriptEngine
