import ScriptEngine.Evaluator
import ScriptEngine.Proofs.Heap.Objects

/-!
# Computations on the data of a program

Most functions of the engine read whatever they like and change only the data of the program that
runs: its heap, its output and its frames. They leave the modules, the diagnostics, the files, the
counter of expressions and the place alone, however they end, and what they do to the frames is what
`Machine.Reframes` says. Such a computation is `Local`.

Nearly all of them leave the instances of user classes alone as well: they are `Plain`, and there is
one lemma for every function that evaluates no part of the program. The few that are not plain
record the progress of an initialization, which is a change to an instance.
-/

namespace ScriptEngine

/-- What may become of the frames: there are more of them, the current one has other bindings, and
so have the exports of modules, and elsewhere names that are bound have other values. -/
inductive Machine.Reframes (m : Machine) : Frames → Prop where
  | same : m.Reframes m.frames
  | added {fs : Frames} (h : m.Reframes fs) (enclosing : FrameId)
      (bindings : List (String × Value)) :
      m.Reframes (fs.createWith (some enclosing) bindings).2
  | put {fs : Frames} (h : m.Reframes fs) {f : FrameId} {name : String} (value : Value)
      (hf : f = m.current ∨ fs.binds f name = true ∨
        ∃ k < m.modules.size, f = (m.modules.node k).exports) :
      m.Reframes (fs.put f name value)

/-- Frames that are changed twice are changed. -/
theorem Machine.Reframes.trans {m : Machine} {store : Store} {fs fs' : Frames}
    (h : m.Reframes fs)
    (h' : Machine.Reframes { m with store := store, frames := fs } fs') : m.Reframes fs' := by
  induction h' with
  | same => exact h
  | added _ enclosing bindings ih => exact ih.added enclosing bindings
  | put _ value hf ih => exact ih.put value hf

namespace Frames

/-- A name is assigned to where it is bound. -/
theorem binds_of_holder? (fs : Frames) (f : FrameId) (name : String) {g : FrameId}
    (h : fs.holder? f name = some g) : fs.binds g name = true := by
  induction f using Nat.strongRecOn with
  | _ f ih =>
    rw [holder?] at h
    split at h
    · next hbinds =>
      cases h
      exact hbinds
    · split at h
      · split at h
        · next hlt => exact ih _ hlt h
        · cases h
      · cases h

/-- A name is assigned to in a frame that binds it. -/
theorem binds_of_target {fs : Frames} {f g : FrameId} {name : Token}
    (h : fs.target f name = .ok g) : fs.binds g name.lexeme = true := by
  unfold target at h
  split at h
  · next hholder =>
    cases h
    exact binds_of_holder? fs f name.lexeme hholder
  · cases h

/-- A name is assigned to at a distance in a frame that binds it. -/
theorem binds_of_targetAt {fs : Frames} {f g : FrameId} {distance : Nat} {name : Token}
    (h : fs.targetAt f distance name = .ok g) : fs.binds g name.lexeme = true := by
  unfold targetAt at h
  cases hancestor : fs.ancestor f distance with
  | error e =>
    rw [hancestor] at h
    cases h
  | ok frame =>
    rw [hancestor] at h
    change (if fs.binds frame name.lexeme then Except.ok frame else _) = _ at h
    split at h
    · next hbinds =>
      cases h
      exact hbinds
    · cases h

end Frames

namespace Run

/-- The machine that an outcome leaves. -/
def left {α : Type} : EStateM.Result Halt Machine α → Machine
  | .ok _ m => m
  | .error _ m => m

/-- The computation changes nothing but the heap, the output and the frames. -/
def Local {α : Type} (x : Run α) : Prop :=
  ∀ m, ∃ store frames, left (x m) = { m with store := store, frames := frames } ∧
    m.Reframes frames

/-- The computation is local, and it leaves the instances as they are. -/
def Plain {α : Type} (x : Run α) : Prop :=
  ∀ m, ∃ store frames, left (x m) = { m with store := store, frames := frames } ∧
    m.Reframes frames ∧ store.heap.objects = m.store.heap.objects

theorem Plain.local {α : Type} {x : Run α} (h : Plain x) : Local x := by
  intro m
  obtain ⟨store, frames, hleft, hframes, -⟩ := h m
  exact ⟨store, frames, hleft, hframes⟩

/-- A plain computation leaves the instances as they are. -/
theorem Plain.objects {α : Type} {x : Run α} (h : Plain x) (m : Machine) :
    (left (x m)).store.heap.objects = m.store.heap.objects := by
  obtain ⟨store, frames, hleft, -, hobjects⟩ := h m
  rw [hleft]
  exact hobjects

/-! ## The building blocks -/

/-- A sequence of local computations is local. -/
theorem local_bind {α β : Type} {x : Run α} {f : α → Run β} (hx : Local x)
    (hf : ∀ a, Local (f a)) : Local (x >>= f) := by
  intro m
  obtain ⟨store, frames, hleft, hframes⟩ := hx m
  show ∃ store frames, left (EStateM.bind x f m) = _ ∧ _
  unfold EStateM.bind
  cases hr : x m with
  | error halt m₁ =>
    rw [hr] at hleft
    exact ⟨store, frames, hleft, hframes⟩
  | ok a m₁ =>
    rw [hr] at hleft
    obtain rfl : m₁ = { m with store := store, frames := frames } := hleft
    obtain ⟨store', frames', hleft', hframes'⟩ := hf a { m with store := store, frames := frames }
    exact ⟨store', frames', hleft', hframes.trans hframes'⟩

/-- A sequence of plain computations is plain. -/
theorem plain_bind {α β : Type} {x : Run α} {f : α → Run β} (hx : Plain x)
    (hf : ∀ a, Plain (f a)) : Plain (x >>= f) := by
  intro m
  obtain ⟨store, frames, hleft, hframes⟩ := local_bind hx.local (fun a => (hf a).local) m
  refine ⟨store, frames, hleft, hframes, ?_⟩
  have hfirst := hx.objects m
  change left (EStateM.bind x f m) = _ at hleft
  unfold EStateM.bind at hleft
  cases hr : x m with
  | error halt m₁ =>
    rw [hr] at hleft hfirst
    obtain rfl : m₁ = { m with store := store, frames := frames } := hleft
    exact hfirst
  | ok a m₁ =>
    rw [hr] at hleft hfirst
    have hsecond := (hf a).objects m₁
    rw [hleft] at hsecond
    exact hsecond.trans hfirst

theorem plain_pure {α : Type} (a : α) : Plain (pure a : Run α) :=
  fun m => ⟨m.store, m.frames, rfl, .same, rfl⟩

theorem plain_throw {α : Type} (halt : Halt) : Plain (throw halt : Run α) :=
  fun m => ⟨m.store, m.frames, rfl, .same, rfl⟩

theorem plain_get : Plain (get : Run Machine) :=
  fun m => ⟨m.store, m.frames, rfl, .same, rfl⟩

theorem plain_fail {α : Type} (e : RuntimeError) : Plain (fail e : Run α) :=
  plain_throw _

theorem plain_failAt {α : Type} (token : Token) (cause : Cause) :
    Plain (failAt token cause : Run α) :=
  plain_throw _

/-- A check that fails ends the computation, whatever stands behind it. -/
theorem plain_failAt_bind {α β : Type} (token : Token) (cause : Cause) (f : α → Run β) :
    Plain (failAt token cause >>= f) :=
  fun m => ⟨m.store, m.frames, rfl, .same, rfl⟩

theorem plain_ofExcept {α : Type} (r : Except RuntimeError α) : Plain (ofExcept r) := by
  cases r with
  | ok a => exact plain_pure a
  | error e => exact plain_fail e

theorem plain_heap : Plain heap :=
  plain_bind plain_get fun _ => plain_pure _

/-- Frames and output have nothing to do with instances. -/
theorem plain_modify {f : Machine → Machine}
    (h : ∀ m, ∃ store frames, f m = { m with store := store, frames := frames } ∧
      m.Reframes frames ∧ store.heap.objects = m.store.heap.objects) :
    Plain (modify f : Run Unit) :=
  h

/-- A change of the data that leaves the instances is plain. -/
theorem plain_modifyGet {α : Type} {f : Machine → α × Machine}
    (h : ∀ m, ∃ store frames, (f m).2 = { m with store := store, frames := frames } ∧
      m.Reframes frames ∧ store.heap.objects = m.store.heap.objects) :
    Plain (modifyGet f : Run α) :=
  h

theorem local_modifyHeap (f : Heap → Heap) : Local (modifyHeap f) :=
  fun m => ⟨_, m.frames, rfl, .same⟩

/-- A change of the heap that leaves the instances is plain. -/
theorem plain_modifyHeap {f : Heap → Heap} (hf : ∀ h, (f h).objects = h.objects) :
    Plain (modifyHeap f) :=
  plain_modify fun m => ⟨_, m.frames, rfl, .same, hf m.store.heap⟩

theorem plain_onHeap {α : Type} {f : Heap → α × Heap} (hf : ∀ h, (f h).2.objects = h.objects) :
    Plain (onHeap f) :=
  plain_modifyGet fun m => ⟨_, m.frames, rfl, .same, hf m.store.heap⟩

theorem plain_fresh : Plain (onHeap Heap.fresh) :=
  plain_onHeap fun _ => rfl

theorem plain_print (line : String) : Plain (print line) :=
  plain_modify fun m => ⟨_, m.frames, rfl, .same, rfl⟩

/-- A built-in function that answers changes nothing but the data. -/
theorem action_of_ok {α : Type} {m : Machine} (token : Token) {a : Action α} {v : α} {s : Store}
    (h : a m.store = .ok v s) : action token a m = .ok v { m with store := s } := by
  unfold action
  dsimp only
  rw [h]

theorem action_of_error {α : Type} {m : Machine} (token : Token) {a : Action α}
    {fault : BuiltinFault} {s : Store} (h : a m.store = .error fault s) :
    action token a m =
      .error (.failed (.located (.builtin fault) token)) { m with store := s } := by
  unfold action
  dsimp only
  rw [h]

theorem local_action {α : Type} (token : Token) (a : Action α) : Local (action token a) := by
  intro m
  cases hr : a m.store with
  | ok value store =>
    rw [action_of_ok token hr]
    exact ⟨store, m.frames, rfl, .same⟩
  | error fault store =>
    rw [action_of_error token hr]
    exact ⟨store, m.frames, rfl, .same⟩

/-- A built-in function that spares the instances is plain. -/
theorem plain_action {α : Type} (token : Token) {a : Action α} (ha : a.Spares) :
    Plain (action token a) := by
  intro m
  have hobjects := ha m.store
  cases hr : a m.store with
  | ok value store =>
    rw [hr] at hobjects
    rw [action_of_ok token hr]
    exact ⟨store, m.frames, rfl, .same, hobjects⟩
  | error fault store =>
    rw [hr] at hobjects
    rw [action_of_error token hr]
    exact ⟨store, m.frames, rfl, .same, hobjects⟩

/-- Asking for the active module is plain. -/
theorem plain_activeModule : Plain activeModule := by
  refine plain_bind plain_get fun m => ?_
  cases m.active? with
  | some id => exact plain_pure id
  | none => exact plain_fail _

/-! ## Frames, names and import references -/

theorem plain_newFrame (enclosing : FrameId) (bindings : List (String × Value)) :
    Plain (newFrame enclosing bindings) :=
  plain_modifyGet fun m => ⟨m.store, _, rfl, .added .same _ _, rfl⟩

theorem plain_childFrame (bindings : List (String × Value)) : Plain (childFrame bindings) :=
  plain_bind plain_get fun _ => plain_newFrame _ _

/-- Writing a name puts the value into the frame that is found, or fails as the search does. -/
theorem write_run (target : Frames → Except RuntimeError FrameId) (name : Token) (value : Value)
    (m : Machine) :
    write target name value m = (match target m.frames with
      | .ok frame => .ok () { m with frames := m.frames.put frame name.lexeme value }
      | .error e => .error (.failed e) m) := by
  show EStateM.bind (ofExcept (target m.frames)) _ m = _
  cases target m.frames with
  | ok frame => rfl
  | error e => rfl

/-- Writing a name where it is bound. -/
theorem plain_write {target : Frames → Except RuntimeError FrameId} {name : Token}
    (htarget : ∀ fs f, target fs = .ok f → fs.binds f name.lexeme = true) (value : Value) :
    Plain (write target name value) := by
  intro m
  rw [write_run]
  cases hframe : target m.frames with
  | ok frame =>
    exact ⟨m.store, _, rfl, .put .same value (Or.inr (Or.inl (htarget _ _ hframe))), rfl⟩
  | error e => exact ⟨m.store, m.frames, rfl, .same, rfl⟩

theorem plain_define (name : Token) (value : Value) : Plain (define name value) := by
  intro m
  rw [show define name value m = write (·.newTarget m.current name) name value m from rfl,
    write_run]
  unfold Frames.newTarget
  cases m.frames.binds m.current name.lexeme with
  | true => exact ⟨m.store, m.frames, rfl, .same, rfl⟩
  | false => exact ⟨m.store, _, rfl, .put .same value (Or.inl rfl), rfl⟩

theorem plain_globals : Plain globals := by
  refine plain_bind plain_activeModule fun id => ?_
  exact plain_bind plain_get fun _ => plain_pure _

theorem plain_distance? (id : ExprId) : Plain (distance? id) := by
  refine plain_bind plain_activeModule fun home => ?_
  exact plain_bind plain_get fun _ => plain_pure _

theorem plain_lookUp (id : ExprId) (name : Token) : Plain (lookUp id name) := by
  refine plain_bind (plain_distance? id) fun distance? => ?_
  cases distance? with
  | some distance => exact plain_bind plain_get fun _ => plain_ofExcept _
  | none =>
    refine plain_bind plain_globals fun frame => ?_
    exact plain_bind plain_get fun _ => plain_ofExcept _

theorem plain_assign (id : ExprId) (name : Token) (value : Value) :
    Plain (assign id name value) := by
  refine plain_bind (plain_distance? id) fun distance? => ?_
  cases distance? with
  | some distance =>
    exact plain_bind plain_get fun _ => plain_write (fun _ _ => Frames.binds_of_targetAt) _
  | none =>
    exact plain_bind plain_globals fun _ => plain_write (fun _ _ => Frames.binds_of_target) _

theorem plain_refreshImport (id : ImportId) (value : Value) :
    Plain (modifyHeap fun h => h.refreshImport id value) :=
  plain_modifyHeap fun _ => rfl

/-- One step along a chain of references is plain. -/
theorem plain_resolveImport (id : ImportId) : Plain (resolveImport id) := by
  refine plain_bind plain_get fun m => ?_
  dsimp only
  split
  · exact plain_bind (plain_refreshImport _ _) fun _ => plain_pure _
  · exact plain_failAt _ _

/-- Following a chain is plain, by induction on the steps. -/
theorem plain_derefUpTo (steps : Nat) (value : Value) : Plain (derefUpTo steps value) := by
  induction steps generalizing value with
  | zero =>
    cases value with
    | imported id => exact plain_bind plain_heap fun _ => plain_failAt _ _
    | _ => exact plain_pure _
  | succ steps ih =>
    cases value with
    | imported id => exact plain_bind (plain_resolveImport id) fun v => ih v
    | _ => exact plain_pure _

theorem plain_deref (value : Value) : Plain (deref value) :=
  plain_derefUpTo _ _

/-! ## Properties -/

/-- Binding a method of the program is plain. -/
theorem plain_bindMethod (f : Function) (this : Value) : Plain (bindMethod f this) := by
  refine plain_bind (plain_newFrame _ _) fun frame => ?_
  exact plain_bind plain_fresh fun _ => plain_pure _

/-- Reading a backing as a field is plain. -/
theorem plain_nativeField (i : Instance) (name : Token) : Plain (nativeField i name) := by
  refine plain_bind plain_heap fun h => ?_
  split
  · exact plain_pure _
  · exact plain_failAt _ _

/-- Reading a property of an instance is plain. -/
theorem plain_objectProperty (id : ObjectId) (name : Token) :
    Plain (objectProperty id name) := by
  refine plain_bind plain_heap fun h => ?_
  dsimp only
  split
  · exact plain_pure _
  · split
    · exact plain_bind (plain_bindMethod _ _) fun _ => plain_pure _
    · split
      · refine plain_bind (plain_action _ (Builtin.spares_bindMethod? _ _)) fun method? => ?_
        cases method? with
        | some method => exact plain_pure method
        | none => exact plain_nativeField _ _
      · exact plain_nativeField _ _
    · exact plain_nativeField _ _

/-- Reading a property of any value is plain. -/
theorem plain_getProperty (object : Value) (name : Token) :
    Plain (getProperty object name) := by
  unfold getProperty
  split
  · exact plain_objectProperty _ _
  · refine plain_bind (plain_action _ (Builtin.spares_property? _ _)) fun value? => ?_
    cases value? with
    | some value => exact plain_pure value
    | none => exact plain_failAt _ _
  · exact plain_failAt _ _

end Run

namespace Evaluator

open Run

/-! ## Calls and classes -/

theorem plain_checkArity (arity got : Nat) (paren : Token) :
    Plain (checkArity arity got paren) := by
  unfold checkArity
  split
  · exact plain_failAt _ _
  · exact plain_pure _

theorem plain_evaluateSuperclass (ref : Reference) :
    Plain (evaluateSuperclass ref) := by
  refine plain_bind (plain_lookUp _ _) fun v => ?_
  refine plain_bind (plain_deref _) fun v => ?_
  split
  · exact plain_pure _
  · exact plain_pure _
  · exact plain_failAt _ _

theorem plain_evaluateSuperclasses (refs : List Reference) :
    Plain (evaluateSuperclasses refs) := by
  induction refs with
  | nil => exact plain_pure _
  | cons ref refs ih =>
    refine plain_bind (plain_evaluateSuperclass ref) fun first => ?_
    exact plain_bind ih fun rest => plain_pure _

/-- Making the methods of a class is plain. -/
theorem plain_makeMethods (className : String) (closure : FrameId) (home : ModuleId)
    (decls : List FunctionDecl) (made : List (String × Function)) :
    Plain (makeMethods className closure home decls made) := by
  induction decls generalizing made with
  | nil => exact plain_pure _
  | cons decl decls ih => exact plain_bind plain_fresh fun id => ih _

/-- Making the frame of the superclasses is plain. -/
theorem plain_methodFrame (refs : List Reference) (supers : List Superclass) :
    Plain (methodFrame refs supers) := by
  unfold methodFrame
  split
  · exact plain_bind plain_get fun _ => plain_pure _
  · exact plain_childFrame _

theorem plain_declareClass (name : Token) (refs : List Reference) (decls : List FunctionDecl) :
    Plain (declareClass name refs decls) := by
  refine plain_bind (plain_evaluateSuperclasses refs) fun supers => ?_
  refine plain_bind (plain_define _ _) fun _ => ?_
  refine plain_bind (plain_methodFrame _ _) fun closure => ?_
  refine plain_bind plain_activeModule fun home => ?_
  refine plain_bind (plain_makeMethods _ _ _ _ _) fun methods => ?_
  refine plain_bind plain_fresh fun id => ?_
  exact plain_bind plain_get fun _ => plain_write (fun _ _ => Frames.binds_of_target) _

theorem plain_superInit (className : String) (arity : Nat) (act : NativeAction) :
    Plain (superInit className arity act) :=
  plain_bind plain_fresh fun _ => plain_pure _

/-! ## Operators, functions and imports -/

theorem plain_nullOperation (operator : Token) : Plain (nullOperation operator) := by
  unfold nullOperation
  split
  · exact plain_pure _
  · exact plain_pure _
  · exact plain_failAt _ _

theorem plain_closure (decl : FunctionDecl) : Plain (closure decl) := by
  refine plain_bind plain_activeModule fun home => ?_
  refine plain_bind plain_fresh fun id => ?_
  exact plain_bind plain_get fun _ => plain_pure _

theorem plain_bindImport (target : ModuleId) (item : ImportItem) :
    Plain (bindImport target item) := by
  refine plain_bind plain_get fun m => ?_
  dsimp only
  split
  · exact plain_failAt_bind _ _ _
  · exact plain_bind (plain_onHeap fun _ => rfl) fun _ => plain_define _ _

theorem plain_bindImports (target : ModuleId) (items : List ImportItem) :
    Plain (bindImports target items) := by
  induction items with
  | nil => exact plain_pure _
  | cons item items ih => exact plain_bind (plain_bindImport target item) fun _ => ih

theorem activeModule_run (m : Machine) :
    activeModule m = (match m.active? with
      | some id => pure id
      | none => fail (.internal .noActiveModule) : Run ModuleId) m :=
  rfl

/-- The active module is answered where there is one. -/
theorem activeModule_eq {m : Machine} {id : ModuleId} (h : m.active? = some id) :
    activeModule m = .ok id m := by
  rw [activeModule_run, h]
  rfl

/-- Without one the failure is internal. -/
theorem activeModule_eq_none {m : Machine} (h : m.active? = none) :
    activeModule m = .error (.failed (.internal .noActiveModule)) m := by
  rw [activeModule_run, h]
  rfl

/-- What an export does once the declaration has run. -/
def recordExport (inner : Stmt) (flow : Flow) : Run Flow := do
  let id ← activeModule
  let m ← get
  let node := m.modules.node id
  match declaredName? inner with
  | some name =>
    if node.isImported then do
      let value ← ofExcept (m.frames.get m.current name)
      modify fun m => { m with frames := m.frames.put node.exports name.lexeme value }
    pure flow
  | none => pure flow

/-- An export runs its declaration and records it. -/
theorem exportDeclared_eq (ev : Evaluator) (inner : Stmt) :
    ev.exportDeclared inner = (do recordExport inner (← ev.execute inner)) :=
  rfl

/-- A module that was imported is there, so it is its exports that get a name. -/
theorem plain_recordExport (inner : Stmt) (flow : Flow) : Plain (recordExport inner flow) := by
  intro m
  rcases Option.eq_none_or_eq_some m.active? with hactive | ⟨id, hactive⟩
  · have hrun : recordExport inner flow m = .error (.failed (.internal .noActiveModule)) m := by
      show EStateM.bind activeModule _ m = _
      rw [EStateM.bind, activeModule_eq_none hactive]
    rw [hrun]
    exact ⟨m.store, m.frames, rfl, .same, rfl⟩
  · have hrun : recordExport inner flow m = (match declaredName? inner with
      | some name => do
        if (m.modules.node id).isImported then do
          let value ← ofExcept (m.frames.get m.current name)
          modify fun m' => { m' with
            frames := m'.frames.put (m.modules.node id).exports name.lexeme value }
        pure flow
      | none => pure flow : Run Flow) m := by
      show EStateM.bind activeModule _ m = _
      rw [EStateM.bind, activeModule_eq hactive]
      rfl
    rw [hrun]
    cases declaredName? inner with
    | none => exact ⟨m.store, m.frames, rfl, .same, rfl⟩
    | some name =>
      dsimp only
      by_cases himported : (m.modules.node id).isImported = true
      · have hid : id < m.modules.size := by
          refine Nat.lt_of_not_le fun hle => ?_
          rw [ModuleTree.node, Array.getD_eq_getD_getElem?, Array.getElem?_eq_none hle] at himported
          cases himported
        rw [if_pos himported]
        cases m.frames.get m.current name with
        | error e => exact ⟨m.store, m.frames, rfl, .same, rfl⟩
        | ok value =>
          exact ⟨m.store, _, rfl, .put .same value (Or.inr (Or.inr ⟨id, hid, rfl⟩)), rfl⟩
      · rw [if_neg himported]
        exact ⟨m.store, m.frames, rfl, .same, rfl⟩

/-! ## The progress of an initialization -/

/-- The end of an initializer is local, though it closes a slot. -/
theorem local_finishInit (f : Function) (result : Value) :
    Local (finishInit f result) := by
  refine local_bind plain_get.local fun m => ?_
  split
  · exact (plain_pure _).local
  · split
    · exact local_bind (local_modifyHeap _) fun _ => (plain_pure _).local
    · exact local_bind (plain_pure _).local fun _ => (plain_pure _).local

theorem local_setStatus (id : ObjectId) (className : String) (status : InitStatus) :
    Local (setStatus id className status) :=
  local_modifyHeap _

/-- Binding the initializer of a built-in superclass marks its slot as being initialized; binding
any other method changes no instance. -/
theorem bindSuperMethod_cases (id : ObjectId) (method : Token) (found : Option Method) :
    Plain (bindSuperMethod id method found) ∨ ∃ name arity act, bindSuperMethod id method found =
      (setStatus id name .initializing >>= fun _ => superInit name arity act) := by
  unfold bindSuperMethod
  split
  · exact Or.inl (plain_bind (plain_bindMethod _ _) fun _ => plain_pure _)
  · split
    · exact Or.inr ⟨_, _, _, rfl⟩
    · refine Or.inl (plain_bind plain_heap fun h => ?_)
      split
      · exact plain_failAt _ _
      · refine plain_bind (plain_action _ (Builtin.spares_bindMethod? _ _)) fun method? => ?_
        cases method? with
        | some f => exact plain_pure f
        | none => exact plain_failAt _ _
  · exact Or.inl (plain_failAt _ _)

/-- Binding what a superclass answers is local. -/
theorem local_bindSuperMethod (id : ObjectId) (method : Token) (found : Option Method) :
    Local (bindSuperMethod id method found) := by
  rcases bindSuperMethod_cases id method found with hplain | ⟨name, arity, act, hinit⟩
  · exact hplain.local
  · rw [hinit]
    exact local_bind (local_setStatus _ _ _) fun _ => (plain_superInit _ _ _).local

/-- Asking a superclass of the program is local. -/
theorem local_userSuperMethod (id : ObjectId) (parent : Class) (method : Token) :
    Local (userSuperMethod id parent method) := by
  unfold userSuperMethod
  dsimp only
  split
  · split
    · exact local_bind (local_setStatus _ _ _) fun _ => local_bindSuperMethod _ _ _
    · refine local_bind (local_setStatus _ _ _) fun _ => ?_
      split
      · exact (plain_superInit _ _ _).local
      · exact local_bindSuperMethod _ _ _
  · exact local_bindSuperMethod _ _ _

theorem local_superMethod (id : ExprId) (keyword className method : Token) :
    Local (superMethod id keyword className method) := by
  refine local_bind (plain_distance? id).local fun distance? => ?_
  cases distance? with
  | none => exact (plain_failAt _ _).local
  | some distance =>
    refine local_bind plain_get.local fun m => ?_
    refine local_bind (plain_ofExcept _).local fun frame => ?_
    split
    · exact (plain_failAt _ _).local
    · cases distance with
      -- The receiver is one frame further in than the superclasses, so there must be such a frame.
      | zero => exact (plain_fail _).local
      | succ inner =>
        refine local_bind (plain_ofExcept _).local fun this => ?_
        split
        · split
          · exact local_userSuperMethod _ _ _
          · exact local_bindSuperMethod _ _ _
          · exact (plain_fail _).local
        · exact (plain_fail _).local

end Evaluator

end ScriptEngine
