import ScriptEngine.Proofs.Evaluator.Imported
import ScriptEngine.Proofs.Evaluator.Twins

/-!
# Names are bound in the current frame only

Evaluating a part of a program gives names to no frame that is there but the current one: a block
or a call gets a frame of its own, and so does a module. Frames that hold the exports of a module
are the exception, since a declaration in that module adds to them from wherever it stands.

Values are another matter. A name that is bound may be assigned to from any frame inside it, so what
is kept here is which names a frame binds, and not to what.
-/

namespace ScriptEngine

/-- The frame still binds the same names, and it still holds the exports of no module. -/
structure Machine.Keeps (f : FrameId) (m m' : Machine) : Prop where
  inner : m'.Inner f
  names : ∀ name, m'.frames.binds f name = m.frames.binds f name

namespace Machine

variable {f : FrameId} {m m' m'' : Machine}

/-- Names that are kept twice are kept. -/
theorem Keeps.trans (h : m.Keeps f m') (h' : m'.Keeps f m'') : m.Keeps f m'' :=
  ⟨h'.inner, fun name => (h'.names name).trans (h.names name)⟩

/-- A change of modules that leaves their exports where they are. -/
theorem Keeps.of_frames (hf : m.Inner f) (hframes : m'.frames = m.frames)
    (hsize : m'.modules.size = m.modules.size)
    (hexports : ∀ k, (m'.modules.node k).exports = (m.modules.node k).exports) :
    m.Keeps f m' where
  inner := by
    refine ⟨?_, fun k hk => ?_⟩
    · rw [hframes]
      exact hf.1
    · rw [hexports]
      exact hf.2 k (hsize ▸ hk)
  names := fun name => by rw [hframes]

/-- A frame without exports keeps its own names. -/
theorem Keeps.refl (hf : m.Inner f) : m.Keeps f m :=
  .of_frames hf rfl rfl fun _ => rfl

/-- Putting a value under a name that is bound, or into another frame, gives the frame no name. -/
theorem binds_put_of_ne (fs : Frames) {g : FrameId} {name : String} (value : Value)
    (h : g ≠ f ∨ fs.binds g name = true) (n : String) :
    (fs.put g name value).binds f n = fs.binds f n := by
  unfold Frames.binds
  rw [Frames.local?_put]
  split
  · next heq =>
    obtain ⟨rfl, -, rfl⟩ := heq
    exact (h.resolve_left fun hne => hne rfl).symm
  · rfl

theorem Reframes.size {fs : Frames} (h : m.Reframes fs) :
    m.frames.frames.size ≤ fs.frames.size := by
  induction h with
  | same => exact Nat.le_refl _
  | added _ enclosing bindings ih =>
    refine Nat.le_trans ih ?_
    show _ ≤ (Array.push _ _).size
    rw [Array.size_push]
    exact Nat.le_succ _
  | put _ value _ ih =>
    rw [Frames.put, Array.size_modify]
    exact ih

/-- What happens to frames gives names to no other than the current one. -/
theorem Reframes.keeps {fs : Frames} (h : m.Reframes fs) (hf : m.Inner f) (hne : f ≠ m.current)
    (store : Store) : m.Keeps f { m with store := store, frames := fs } where
  inner := ⟨Nat.lt_of_lt_of_le hf.1 h.size, hf.2⟩
  names := by
    induction h with
    | same => exact fun _ => rfl
    | added h enclosing bindings ih =>
      intro name
      rw [← ih name]
      show (Frames.add _ _).binds f name = _
      unfold Frames.binds Frames.local?
      rw [Frames.frame_add, if_neg (Nat.ne_of_lt (Nat.lt_of_lt_of_le hf.1 h.size))]
    | put _ value hput ih =>
      intro name
      rw [← ih name]
      refine binds_put_of_ne _ value ?_ name
      rcases hput with rfl | hbinds | ⟨k, hk, rfl⟩
      · exact Or.inl (Ne.symm hne)
      · exact Or.inr hbinds
      · exact Or.inl (hf.2 k hk)

end Machine

namespace Run

/-- The computation gives names to no frame but the current one, however it ends. -/
def BindsHere {α : Type} (x : Run α) : Prop :=
  ∀ (m : Machine) (f : FrameId), m.Inner f → f ≠ m.current → m.Keeps f (left (x m))

variable {α β : Type} {f : FrameId} {m : Machine}

/-! ## The building blocks -/

/-- Local computations give names to the current frame only. -/
theorem bindsHere_local {x : Run α} (h : x.Local) : BindsHere x := by
  intro m f hf hne
  obtain ⟨store, frames, hleft, hframes⟩ := h m
  rw [hleft]
  exact hframes.keeps hf hne store

theorem bindsHere_modify {g : Machine → Machine} (hframes : ∀ m, (g m).frames = m.frames)
    (hmodules : ∀ m, (g m).modules = m.modules) : BindsHere (modify g : Run Unit) := by
  intro m f hf _
  show m.Keeps f (g m)
  exact .of_frames hf (hframes m) (by rw [hmodules]) fun _ => by rw [hmodules]

/-- The second half begins in the frame where the first did, unless that was broken off. -/
theorem bindsHere_either {x : Run α} {y : α → Run β} {z : Halt → Run β} (hreturns : Returns x)
    (hx : BindsHere x) (hy : ∀ a, BindsHere (y a))
    (hz : ∀ halt, halt ≠ .exhausted → BindsHere (z halt))
    (hexhausted : z .exhausted = throw .exhausted) : BindsHere (x.either y z) := by
  intro m f hf hne
  have hends := hreturns m
  have hfirst := hx m f hf hne
  unfold either
  cases hr : x m with
  | ok a m' =>
    rw [hr] at hends hfirst
    exact hfirst.trans (hy a m' f hfirst.inner (hends.2 ▸ hne))
  | error halt m' =>
    rw [hr] at hends hfirst
    cases halt with
    | exhausted =>
      dsimp only
      rw [hexhausted]
      exact hfirst
    | failed e => exact hfirst.trans (hz (.failed e) (by simp) m' f hfirst.inner (hends.2 ▸ hne))
    | thrown id => exact hfirst.trans (hz (.thrown id) (by simp) m' f hfirst.inner (hends.2 ▸ hne))

theorem bindsHere_bind {x : Run α} {y : α → Run β} (hreturns : Returns x) (hx : BindsHere x)
    (hy : ∀ a, BindsHere (y a)) : BindsHere (x >>= y) := by
  rw [bind_eq_either]
  exact bindsHere_either hreturns hx hy (fun halt _ => bindsHere_local (plain_throw halt).local) rfl

/-- A body may give names to the frame that it runs in, which is not there before. -/
theorem bindsHere_inNewFrame {body : Run α} (enclosing : FrameId) (bindings : List (String × Value))
    (h : BindsHere body) :
    BindsHere (newFrame enclosing bindings >>= fun frame => inFrame frame body) := by
  intro m f hf hne
  have hnew : m.Keeps f { m with frames := (m.frames.createWith (some enclosing) bindings).2 } :=
    (Machine.Reframes.added .same enclosing bindings).keeps hf hne m.store
  show m.Keeps f (left (inFrame m.frames.frames.size body
    { m with frames := (m.frames.createWith (some enclosing) bindings).2 }))
  rw [inFrame_eq, left_adjust]
  have hbody := h { m with
    frames := (m.frames.createWith (some enclosing) bindings).2
    current := m.frames.frames.size } f hnew.inner (Nat.ne_of_lt hf.1)
  exact hnew.trans ⟨hbody.inner, hbody.names⟩

theorem bindsHere_inModule {body : Run α} (id : ModuleId) (h : BindsHere body) :
    BindsHere (inModule id body) := by
  intro m f hf hne
  rw [inModule_eq, left_adjust]
  have hbody := h { m with active? := some id } f hf hne
  exact ⟨hbody.inner, hbody.names⟩

end Run

/-! ## Parts of a program -/

namespace Evaluator

open Run

/-- The evaluation of every part of a program gives names to the current frame only. -/
structure BindsHere (ev : Evaluator) : Prop extends ev.Returns where
  evaluatesHere : ∀ e, Run.BindsHere (ev.evaluate e)
  executesHere : ∀ s, Run.BindsHere (ev.execute s)

variable {ev : Evaluator} {f : FrameId} {m : Machine}

/-- What is composed gives names to the current frame only if the parts do. -/
theorem Composed.bindsHere {α : Type} {x : Evaluator → Run α} (hx : Composed x) (h : ev.BindsHere) :
    Run.BindsHere (x ev) := by
  induction hx with
  | basic hlocal => exact bindsHere_local hlocal
  | evaluate e => exact h.evaluatesHere e
  | execute s => exact h.executesHere s
  | either hx _ _ hexhausted ihx ihf ihg =>
    exact bindsHere_either (hx.returns h.toReturns) ihx ihf ihg (hexhausted ev)
  | inNewFrame enclosing bindings _ ih => exact bindsHere_inNewFrame enclosing bindings ih
  | inModule id _ ih => exact bindsHere_inModule id ih

/-! ## Modules -/

theorem bindsHere_closing (halt : Halt) : Run.BindsHere (closing halt) := by
  cases halt with
  | exhausted => exact bindsHere_local (plain_throw _).local
  | failed e => exact bindsHere_modify (fun _ => rfl) fun _ => rfl
  | thrown id => exact bindsHere_modify (fun _ => rfl) fun _ => rfl

/-- Statements of a module give names to the current frame only. -/
theorem bindsHere_runTopLevel (h : ev.BindsHere) (statements : List Stmt) :
    Run.BindsHere (ev.runTopLevel statements) := by
  induction statements with
  | nil => exact bindsHere_local (plain_pure ()).local
  | cons s rest ih =>
    rw [runTopLevel_cons]
    exact bindsHere_either (h.execute s) (h.executesHere s) (fun _ => ih)
      (fun halt _ => bindsHere_closing halt) rfl

/-- Changing a module without its exports keeps the names of a frame. -/
theorem keeps_modify (hf : m.Inner f) (id : ModuleId) (g : ModuleNode → ModuleNode)
    (hg : ∀ node, (g node).exports = node.exports) (active? : Option ModuleId)
    (current : FrameId) :
    m.Keeps f { m with
      modules := m.modules.modify id g, active? := active?, current := current } := by
  refine .of_frames hf rfl (ModuleTree.size_modify _ _ _) fun k => ?_
  show ((m.modules.modify id g).node k).exports = _
  rw [ModuleTree.node_modify]
  split
  · exact hg _
  · rfl

/-- A module that runs gives names to its globals. -/
theorem keeps_runModule (h : ev.BindsHere) (hf : m.Inner f) {id : ModuleId}
    (hne : f ≠ (m.modules.node id).globals) (statements : List Stmt) :
    m.Keeps f (left (ev.runModule id statements m)) := by
  rcases runModule_cases id statements m with ⟨errors, -, hrun⟩ | ⟨distances, -, hrun⟩
  · rw [hrun]
    have hclosed := keeps_modify hf id (fun node => { node with state := .loaded }) (fun _ => rfl)
      none (m.modules.node id).globals
    exact ⟨hclosed.inner, hclosed.names⟩
  · rw [hrun]
    have hopened : m.Keeps f (openModule id distances m) := keeps_modify hf id
      (fun node => { node with distances := node.distances.insertMany distances }) (fun _ => rfl)
      (some id) (m.modules.node id).globals
    have hbody := bindsHere_runTopLevel h statements (openModule id distances m) f hopened.inner hne
    show m.Keeps f (left (EStateM.bind (ev.runTopLevel statements) _ (openModule id distances m)))
    unfold EStateM.bind
    cases hr : ev.runTopLevel statements (openModule id distances m) with
    | ok u m' =>
      rw [hr] at hbody
      have hclosed := keeps_modify hbody.inner id (fun node => { node with state := .loaded })
        (fun _ => rfl) none m'.current
      exact (hopened.trans hbody).trans hclosed
    | error halt m' =>
      rw [hr] at hbody
      exact hopened.trans hbody

/-- A new module gets two new frames: its globals, and behind them its exports. -/
theorem frames_sprout (m : Machine) (importer : ModuleId) (path : Path) :
    ((m.sprout importer path).2.modules.node m.modules.size).globals = m.frames.frames.size ∧
      ((m.sprout importer path).2.modules.node m.modules.size).exports =
        m.frames.frames.size + 1 := by
  obtain ⟨_, hnew, -, -⟩ := m.modules.node_sprout importer path m.frames.frames.size
    (m.frames.frames.size + 1) m.modules.size
  rw [ModuleTree.node_create_new] at hnew
  have hmodules : (m.sprout importer path).2.modules = m.modules.sprout importer path
      m.frames.frames.size (m.frames.frames.size + 1) := by
    simp [Machine.sprout, Machine.createModule, Frames.create, ModuleTree.sprout,
      ModuleTree.create, ModuleTree.size]
  rw [hmodules, hnew]
  exact ⟨rfl, rfl⟩

theorem keeps_sprout (hf : m.Inner f) (importer : ModuleId) (path : Path) :
    m.Keeps f (m.sprout importer path).2 where
  inner := by
    refine ⟨?_, fun k hk => ?_⟩
    · show f < ((m.frames.frames.push _).push _).size
      rw [Array.size_push, Array.size_push]
      exact Nat.lt_add_right 2 hf.1
    · rw [size_sprout] at hk
      rcases Nat.lt_succ_iff_lt_or_eq.mp hk with hlt | rfl
      · obtain ⟨-, globals, exports, hmodules⟩ := modules_sprout m importer path
        obtain ⟨_, hnode, -, -⟩ := m.modules.node_sprout importer path globals exports k
        rw [hmodules, hnode, ModuleTree.node_create_of_lt hlt]
        exact hf.2 k hlt
      · rw [(frames_sprout m importer path).2]
        exact Nat.ne_of_gt (Nat.lt_succ_of_lt hf.1)
  names := fun name => by
    have hframe : (m.sprout importer path).2.frames.frame f = m.frames.frame f := by
      show ((m.frames.add ⟨[], some Machine.builtins⟩).add ⟨[], none⟩).frame f = _
      rw [Frames.frame_add, if_neg, Frames.frame_add, if_neg (Nat.ne_of_lt hf.1)]
      show f ≠ (m.frames.frames.push _).size
      rw [Array.size_push]
      exact Nat.ne_of_lt (Nat.lt_succ_of_lt hf.1)
    rw [Frames.binds, Frames.local?, hframe]
    rfl

/-- A new module has its own globals, so it leaves all frames that were there alone. -/
theorem keeps_runImported (h : ev.BindsHere) (hf : m.Inner f) (importer : ModuleId) (path : Path)
    (statements : List Stmt) : m.Keeps f (left (ev.runImported importer path statements m)) := by
  have hsprout := keeps_sprout hf importer path
  have hne : f ≠ ((m.sprout importer path).2.modules.node m.modules.size).globals := by
    rw [(frames_sprout m importer path).1]
    exact Nat.ne_of_lt hf.1
  have hrun := hsprout.trans (keeps_runModule h hsprout.inner hne statements)
  rw [runImported_run]
  show m.Keeps f (left (EStateM.bind (ev.runModule m.modules.size statements) _ _))
  unfold EStateM.bind
  cases hr : ev.runModule m.modules.size statements (m.sprout importer path).2 with
  | ok u m' =>
    rw [hr] at hrun
    exact ⟨hrun.inner, hrun.names⟩
  | error halt m' =>
    rw [hr] at hrun
    exact hrun

theorem keeps_loadModule (h : ev.BindsHere) (hf : m.Inner f) (importer : ModuleId) (path : Path)
    (token : Token) : m.Keeps f (left (ev.loadModule importer path token m)) := by
  rcases loadModule_cases importer path token m with ⟨existing, -, hload⟩ |
    ⟨-, reporter, nextExpr, -, ⟨e, hload⟩ | ⟨source, statements, -, -, hload⟩⟩
  · rw [hload]
    refine .of_frames hf rfl (ModuleTree.size_addChild _ _ _) fun k => ?_
    obtain ⟨children, hnode, -, -⟩ := ModuleTree.node_addChild m.modules importer existing k
    show ((m.modules.addChild importer existing).node k).exports = _
    rw [hnode]
  · rw [hload]
    exact .of_frames hf rfl rfl fun _ => rfl
  · rw [hload]
    have hcompiled : m.Keeps f { m with reporter := reporter, nextExpr := nextExpr } :=
      .of_frames hf rfl rfl fun _ => rfl
    exact hcompiled.trans (keeps_runImported h hcompiled.inner importer path statements)

/-- An import gives names to the current frame only. -/
theorem bindsHere_importNames (h : ev.BindsHere) (token : Token) (items : List ImportItem) :
    Run.BindsHere (ev.importNames token items) := by
  intro m f hf hne
  rcases importNames_cases token items m with ⟨e, -, himport⟩ | ⟨importer, hactive, -, himport⟩
  · rw [himport]
    exact .refl hf
  · rw [himport]
    have hload := keeps_loadModule h hf importer (m.importedPath importer token) token
    have hends : EndsAt m (ev.loadModule importer (m.importedPath importer token) token m) :=
      endsAt_loadModule hactive (m.importedPath importer token) token
    show m.Keeps f (left (EStateM.bind (ev.loadModule importer _ token) _ m))
    unfold EStateM.bind
    cases hr : ev.loadModule importer (m.importedPath importer token) token m with
    | ok u m' =>
      rw [hr] at hload hends
      exact hload.trans
        (bindsHere_local (plain_bindLoaded _ _ _ _).local m' f hload.inner (hends.2 ▸ hne))
    | error halt m' =>
      rw [hr] at hload
      exact hload

end Evaluator

/-! ## The whole evaluator -/

/-- No expression and no statement gives a name to another frame than the one it is in, at any
depth. -/
theorem bindsHere_evaluatorUpTo (depth : Nat) : (evaluatorUpTo depth).BindsHere := by
  induction depth with
  | zero =>
    refine ⟨returns_evaluatorUpTo 0, fun e => ?_, fun s => ?_⟩
    · show Run.BindsHere (evaluate 0 e)
      unfold evaluate
      exact Run.bindsHere_local (Run.plain_throw _).local
    · show Run.BindsHere (execute 0 s)
      unfold execute
      exact Run.bindsHere_local (Run.plain_throw _).local
  | succ depth ih =>
    refine ⟨returns_evaluatorUpTo (depth + 1), fun e => ?_, fun s => ?_⟩
    · show Run.BindsHere (evaluate (depth + 1) e)
      unfold evaluate
      exact (Evaluator.composed_evaluateStep e).bindsHere ih
    · show Run.BindsHere (execute (depth + 1) s)
      unfold execute
      cases s with
      | importFrom path items =>
        exact Run.bindsHere_bind (Evaluator.returns_importNames _ _)
          (Evaluator.bindsHere_importNames ih path items)
          fun _ => Run.bindsHere_local (Run.plain_pure _).local
      | _ => exact (Evaluator.composed_executeStep depth (by simp)).bindsHere ih

end ScriptEngine
