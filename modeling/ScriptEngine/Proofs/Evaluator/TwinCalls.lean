import ScriptEngine.Proofs.Evaluator.Instantiation
import ScriptEngine.Proofs.Evaluator.TwinNames

/-!
# Properties and calls in two runs

Twins that read the same property or make the same call come to the same result, provided that the
evaluators of the two runs do so for every part of a program that may run (`Evaluator.Alike`).
Arguments and receivers are never import references, and what a call gives back is none either.
-/

namespace ScriptEngine

open Run

variable {σ : Setting} {m n : Machine} {ev ev' : Evaluator}

/-! ## Properties -/

/-- A value and its image answer to the same methods. -/
theorem hasMethod_twin (h : Twins σ m n) (v : Value) (method : String) :
    hasMethod n.store.heap (σ.relabel.value v) method = hasMethod m.store.heap v method := by
  cases v with
  | object id =>
    show ((n.store.heap.object id).cls.findMethod? method).isSome = _
    rw [h.object, Relabeling.object_cls, Relabeling.cls_findMethod?, Option.isSome_map]
    rfl
  | _ => rfl

/-- A method of a class whose code may run. -/
theorem Setting.Plain.method {c : Class} (hc : σ.Plain m (.cls c)) {name : String} {f : Function}
    (hf : c.findMethod? name = some (.user f)) : everyDecl σ.part f.decl := by
  obtain ⟨d, hd, hmem⟩ := Class.mem_methods_of_findMethod? c hf
  exact hc d hd _ hmem

/-- The initializer of a class is code that may run. -/
theorem Setting.Plain.ownInit? {c : Class} (hc : σ.Plain m (.cls c)) {f : Function}
    (hf : c.ownInit? = some f) : everyDecl σ.part f.decl :=
  hc c (Class.mem_lineage_self c) _ (mem_methods_of_ownInit? hf)

/-- The class of an instance. -/
theorem Twins.plain_cls (h : Twins σ m n) {id : ObjectId} (hid : id < m.store.heap.objects.size) :
    σ.Plain m (.cls (m.store.heap.object id).cls) :=
  h.tidy.heap.classes id hid

/-- Binding a method makes a frame with its receiver in both runs. -/
theorem meets_bindMethod (h : Twins σ m n) {f : Function} (hf : everyDecl σ.part f.decl)
    {this : Value} (hthis : σ.Plain m this) :
    Meets σ m n (bindMethod f this) (bindMethod (σ.relabel.function f) (σ.relabel.value this))
      σ.relabel.function fun m' g => σ.Plain m' (.function g) := by
  refine meets_bind (meets_newFrame h f.closure fun b (hb : b ∈ [("this", this)]) => ?_) ?_
  · rw [List.mem_singleton.mp hb]
    exact hthis
  rintro m₁ n₁ frame ht₁ - ⟨rfl, rfl, -⟩
  refine meets_bind (meets_fresh ht₁) fun m₂ n₂ id ht₂ hg₂ _ => ?_
  refine meets_pure ht₂ rfl ⟨hf, fun _ => hg₂.plain _ _ ⟨this, ?_, hthis.isImported⟩⟩
  exact local?_withFrame _ _

/-- A field of a built-in instance behind an instance gives the same in both runs, or is refused in
both. -/
theorem meets_nativeField (h : Twins σ m n) {i : Instance}
    (hnatives : ∀ d ∈ i.natives, d.2.Fits m.store.heap) (name : Token) :
    Meets σ m n (nativeField i name) (nativeField (σ.relabel.object i) (σ.relabel.token name))
      σ.relabel.value fun m' v => σ.Plain m' v := by
  refine meets_heap ?_
  have hfield : ((σ.relabel.object i).natives.findSome? fun d =>
      Builtin.field? n.store.heap d.2 (σ.relabel.token name).lexeme) =
      (i.natives.findSome? fun d => Builtin.field? m.store.heap d.2 name.lexeme).map
        σ.relabel.value := by
    rw [Relabeling.object_natives, List.map_findSome?]
    congr 1
    funext d
    rw [h.heap]
    exact Builtin.field?_image _ _ _
  rw [hfield]
  cases hv : i.natives.findSome? fun d => Builtin.field? m.store.heap d.2 name.lexeme with
  | none => exact meets_failAt h _ _
  | some v =>
    obtain ⟨d, hd, hfield⟩ := List.exists_of_findSome?_eq_some hv
    exact meets_pure h rfl (Builtin.fits_field? h.tidy.heap (hnatives d hd) _ v hfield)

/-- A property of an instance gives the same in both runs: a field, a method or a field of a
built-in instance. -/
theorem meets_objectProperty (h : Twins σ m n) {id : ObjectId}
    (hid : id < m.store.heap.objects.size) (name : Token) :
    Meets σ m n (objectProperty id name) (objectProperty id (σ.relabel.token name))
      σ.relabel.value fun m' v => σ.Plain m' v := by
  have hnative := meets_nativeField h (h.tidy.heap.natives id) name
  refine meets_heap ?_
  dsimp only
  rw [h.object, Relabeling.token_lexeme, Relabeling.object_field?]
  cases hv : (m.store.heap.object id).field? name.lexeme with
  | some v => exact meets_pure h rfl (h.tidy.heap.fields id _ (mem_of_lookup hv))
  | none =>
    rw [Relabeling.object_cls, Relabeling.cls_findMethod?]
    cases hfound : (m.store.heap.object id).cls.findMethod? name.lexeme with
    | none => exact hnative
    | some method =>
      cases method with
      | user f =>
        refine meets_bind (meets_bindMethod h ((h.plain_cls hid).method hfound)
          (show σ.Plain m (.object id) from hid)) fun m₁ n₁ g ht₁ _ hg => ?_
        exact meets_pure ht₁ rfl hg
      | builtin c =>
        dsimp only [Option.map_some, Relabeling.method]
        rw [show (σ.relabel.object (m.store.heap.object id)).native? c =
          (m.store.heap.object id).native? c from rfl]
        cases hd : (m.store.heap.object id).native? c with
        | none => exact hnative
        | some d =>
          refine meets_bind (meets_action h name
            (Builtin.keeps_bindMethod? h.tidy.heap (h.tidy.heap.native? hd) _)
            fun _ _ => Builtin.mirrors_bindMethod? d name.lexeme) fun m₁ n₁ v? ht₁ hg₁ hv? => ?_
          cases v? with
          | some v => exact meets_pure ht₁ rfl (Setting.plain_of_frames hv?.1 (hv?.2 v rfl))
          | none =>
            refine meets_nativeField ht₁ (fun d hd => ?_) name
            exact (h.tidy.heap.natives id d hd).mono hg₁.heap

theorem meets_getProperty (h : Twins σ m n) {object : Value} (hobject : σ.Plain m object)
    (name : Token) :
    Meets σ m n (getProperty object name)
      (getProperty (σ.relabel.value object) (σ.relabel.token name)) σ.relabel.value
      fun m' v => σ.Plain m' v := by
  cases object with
  | object id => exact meets_objectProperty h hobject name
  | datum d =>
    refine meets_bind (meets_action h name (Builtin.keeps_property? h.tidy.heap hobject _)
      fun _ _ => Builtin.mirrors_property? d name.lexeme) fun m₁ n₁ v? ht₁ _ hv? => ?_
    cases v? with
    | some v => exact meets_pure ht₁ rfl (Setting.plain_of_frames hv?.1 (hv?.2 v rfl))
    | none => exact meets_failAt ht₁ _ _
  | _ => exact meets_failAt h _ _

/-! ## What evaluators must do -/

/-- The expression is the name of a variable. -/
def Expr.IsName : Expr → Prop
  | .reference _ => True
  | .self _ _ => True
  | _ => False

/-- A flow with a relabeled value. -/
def Relabeling.flow (r : Relabeling) : Flow → Flow
  | .normal => .normal
  | .returned v => .returned (r.value v)

/-- What a statement returns is no import reference. -/
def Setting.FlowPlain (σ : Setting) (m : Machine) : Flow → Prop
  | .normal => True
  | .returned v => σ.Plain m v

/-- What an expression evaluates to: only a name can stand for an import reference. -/
def Setting.Valued (σ : Setting) (e : Expr) (m : Machine) (v : Value) : Prop :=
  σ.Plain m v ∨ v.Refers m.store.heap ∧ e.IsName

/-- What a statement leaves behind: a declared name is bound to no import reference. -/
structure Setting.Done (σ : Setting) (s : Stmt) (m : Machine) (flow : Flow) : Prop where
  flow : σ.FlowPlain m flow
  declared : ∀ name, Evaluator.declaredName? s = some name →
    m.frames.BindsPlain m.current name.lexeme

/-- Two evaluators that do the same on twins. -/
structure Evaluator.Alike (σ : Setting) (ev ev' : Evaluator) : Prop where
  evaluate : ∀ {m n : Machine} {e : Expr}, Twins σ m n → everyExpr σ.part e →
    Meets σ m n (ev.evaluate e) (ev'.evaluate (σ.relabel.expr e)) σ.relabel.value
      (σ.Valued e)
  execute : ∀ {m n : Machine} {s : Stmt}, Twins σ m n → everyStmt σ.part s →
    Meets σ m n (ev.execute s) (ev'.execute (σ.relabel.stmt s)) σ.relabel.flow
      (σ.Done s)

/-- How a statement ends does not depend on where a machine stands. -/
theorem placeless_flow : Placeless fun m flow => σ.FlowPlain m flow := by
  intro m flow active? current h
  cases flow with
  | normal => trivial
  | returned v => exact h

/-- What an expression comes to may be held by both runs. -/
theorem Setting.Valued.seen {e : Expr} {v : Value} (h : σ.Valued e m v) : σ.Seen m v :=
  h.imp_right fun hr => hr.1

namespace Evaluator

/-! ## Running statements -/

/-- Statements one after the other end in the same way in both runs. -/
theorem meets_runAll (hev : ev.Alike σ ev') {body : List Stmt} (h : Twins σ m n)
    (hbody : everyStmts σ.part body) :
    Meets σ m n (ev.runAll body) (ev'.runAll (body.map σ.relabel.stmt))
      σ.relabel.flow fun m' flow => σ.FlowPlain m' flow := by
  induction body generalizing m n with
  | nil => exact meets_pure h rfl trivial
  | cons s rest ih =>
    refine meets_bind (hev.execute h hbody.1) fun m₁ n₁ flow ht _ hp => ?_
    cases flow with
    | normal => exact ih ht hbody.2
    | returned v => exact meets_pure ht rfl hp.flow

theorem meets_runIn (hev : ev.Alike σ ev') {body : List Stmt} (h : Twins σ m n)
    (hbody : everyStmts σ.part body) {frame : FrameId} (hframe : m.Inner frame) :
    Meets σ m n (ev.runIn frame body) (ev'.runIn frame (body.map σ.relabel.stmt))
      σ.relabel.flow fun m' flow => σ.FlowPlain m' flow :=
  meets_inFrame h (placeless_flow (σ := σ)) (meets_runAll hev (h.inFrame hframe) hbody)

theorem meets_runBlock (hev : ev.Alike σ ev') {body : List Stmt} (h : Twins σ m n)
    (hbody : everyStmts σ.part body) :
    Meets σ m n (ev.runBlock body) (ev'.runBlock (body.map σ.relabel.stmt))
      σ.relabel.flow fun m' flow => σ.FlowPlain m' flow := by
  have hnone : ∀ b ∈ ([] : List (String × Value)), σ.Plain m b.2 := fun b hb =>
    absurd hb List.not_mem_nil
  refine meets_bind (meets_childFrame h hnone) fun m₁ n₁ frame ht _ hframe => ?_
  exact meets_runIn hev ht hbody hframe.2

/-! ## Calling functions -/

/-- A wrong number of arguments is refused in both runs. -/
theorem meets_checkArity (h : Twins σ m n) {arity arity' : Nat} (harity : arity' = arity)
    (args : List Value) (paren : Token) :
    Meets σ m n (checkArity arity args.length paren)
      (checkArity arity' (args.map σ.relabel.value).length (σ.relabel.token paren)) (fun u => u)
      fun _ _ => True := by
  subst harity
  unfold checkArity
  rw [List.length_map]
  split
  · exact meets_failAt h _ _
  · exact meets_pure h rfl trivial

/-- Parameters are bound to the relabeled arguments. -/
theorem bindParams_map (r : Relabeling) (params : List Token) (args : List Value) :
    bindParams (params.map r.token) (args.map r.value) =
      (bindParams params args).map r.binding := by
  induction params generalizing args with
  | nil => rfl
  | cons p ps ih =>
    cases args with
    | nil => exact congrArg (_ :: ·) (ih [])
    | cons a as => exact congrArg (_ :: ·) (ih as)

/-- No parameter is bound to an import reference if no argument is one. -/
theorem plain_bindParams {params : List Token} {args : List Value}
    (hargs : ∀ v ∈ args, σ.Plain m v) : ∀ b ∈ bindParams params args, σ.Plain m b.2 := by
  induction params generalizing args with
  | nil => exact fun b hb => absurd hb List.not_mem_nil
  | cons p ps ih =>
    intro b hb
    cases args with
    | nil =>
      rcases List.mem_cons.mp hb with rfl | hb
      · trivial
      · exact ih hargs b hb
    | cons a as =>
      rcases List.mem_cons.mp hb with rfl | hb
      · exact hargs a List.mem_cons_self
      · exact ih (fun v hv => hargs v (List.mem_cons_of_mem a hv)) b hb

/-- Both runs give a slot of an instance the same status. -/
theorem meets_setStatus (h : Twins σ m n) (id : ObjectId) (className : String)
    (status : InitStatus) :
    Meets σ m n (setStatus id className status) (setStatus id className status)
      (fun u => u) fun _ _ => True := by
  have hkeeps : (m.store.heap.object id).Keeps ((m.store.heap.object id).Opens (id < 0))
      ((m.store.heap.object id).setStatus className status) :=
    Instance.keeps_setStatus _ _ _ (.inr fun hlt => absurd hlt (Nat.not_lt_zero id))
  refine Meets.post (meets_modifyHeap h (Heap.grows_modifyObject hkeeps)
    (h.tidy.heap.setStatus id className status) rfl fun imports _ => ?_)
    fun _ _ _ _ _ _ => trivial
  exact m.store.heap.modifyObject_image imports id fun i => rfl

/-- An initializer that ends answers with its instance in both runs. -/
theorem meets_finishInit (h : Twins σ m n) {f : Function}
    (hthis : m.frames.BindsPlain f.closure "this") (result : Value) :
    Meets σ m n (finishInit f result)
      (finishInit (σ.relabel.function f) (σ.relabel.value result)) σ.relabel.value
      fun m' v => σ.Plain m' v := by
  obtain ⟨this, hlocal, hnone⟩ := hthis
  have hplain : σ.Plain m this := by
    rcases h.tidy.values _ _ _ hlocal with hp | hr
    · exact hp
    · rw [hr.1.isImported] at hnone
      cases hnone
  refine meets_get ?_
  rw [Relabeling.function_closure, h.local?, hlocal]
  have hpure : ∀ {m' n' : Machine}, Twins σ m' n' → m.Grown m' →
      Meets σ m' n' (pure this) (pure (σ.relabel.value this)) σ.relabel.value
        fun m' v => σ.Plain m' v :=
    fun ht hg => meets_pure ht rfl (hplain.mono hg)
  cases this with
  | object id =>
    rw [Relabeling.function_owner?]
    cases f.owner? with
    | none => exact hpure h (.refl m)
    | some owner =>
      exact meets_bind (meets_setStatus h id owner .initialized) fun m' n' _ ht hg _ => hpure ht hg
  | _ => exact hpure h (.refl m)

/-- Calling a function of the program gives the same in both runs. -/
theorem meets_callFunction (hev : ev.Alike σ ev') (h : Twins σ m n) {f : Function}
    (hf : σ.Plain m (.function f)) {args : List Value} (hargs : ∀ v ∈ args, σ.Plain m v) :
    Meets σ m n (ev.callFunction f args)
      (ev'.callFunction (σ.relabel.function f) (args.map σ.relabel.value)) σ.relabel.value
      fun m' v => σ.Plain m' v := by
  unfold callFunction
  rw [Relabeling.function_decl, Relabeling.decl_params, Relabeling.decl_body, bindParams_map]
  refine meets_bind (meets_newFrame h f.closure (plain_bindParams hargs)) ?_
  rintro m₁ n₁ frame ht₁ hg₁ ⟨-, -, hframe⟩
  refine meets_bind (meets_inModule ht₁ (placeless_flow (σ := σ))
    (meets_runIn hev (ht₁.inModule _) (everyDecl_body.mp hf.1) hframe))
    fun m₂ n₂ flow ht₂ hg₂ hflow => ?_
  have hfinish : ∀ result, σ.Plain m₂ result →
      Meets σ m₂ n₂
        (if f.isInitializer then finishInit f result else pure result)
        (if f.isInitializer then finishInit (σ.relabel.function f) (σ.relabel.value result)
          else pure (σ.relabel.value result)) σ.relabel.value fun m' v => σ.Plain m' v := by
    intro result hresult
    split
    · next hinit =>
      exact meets_finishInit ht₂ ((hg₁.trans hg₂).plain _ _ (hf.2 hinit)) result
    · exact meets_pure ht₂ rfl hresult
  cases flow with
  | normal => exact hfinish .null trivial
  | returned v => exact hfinish v hflow

/-! ## Making instances -/

/-- Initializing what stands above an instance in one superclass does the same in both runs. -/
theorem meets_initSuperclass (hev : ev.Alike σ ev') (h : Twins σ m n) {id : ObjectId}
    (hid : id < m.store.heap.objects.size) {args : List Value} (hargs : ∀ v ∈ args, σ.Plain m v)
    (paren : Token) {s : Superclass} (hs : σ.Plain m s.toValue) :
    Meets σ m n (ev.initSuperclass id args paren s)
      (ev'.initSuperclass id (args.map σ.relabel.value) (σ.relabel.token paren)
        (σ.relabel.superclass s)) (fun u => u) fun _ _ => True := by
  unfold initSuperclass
  rw [Relabeling.superclass_hasOwnInit, Relabeling.superclass_name]
  split
  · exact meets_setStatus h _ _ _
  · refine meets_bind (meets_setStatus h _ _ _) fun m₁ n₁ _ ht₁ hg₁ _ => ?_
    cases s with
    | builtin b => exact meets_setStatus ht₁ _ _ _
    | user parent =>
      dsimp only [Relabeling.superclass]
      rw [Relabeling.cls_ownInit?]
      cases hinit : parent.ownInit? with
      | none => exact meets_pure ht₁ rfl trivial
      | some init =>
        refine meets_bind (meets_bindMethod ht₁ (hs.ownInit? hinit) (show σ.Plain m₁ (.object id)
          from Nat.lt_of_lt_of_le hid hg₁.heap.objects)) fun m₂ n₂ bound ht₂ hg₂ hbound => ?_
        refine meets_bind (meets_checkArity ht₂ (σ.relabel.function_arity bound) args paren)
          fun m₃ n₃ _ ht₃ hg₃ _ => ?_
        refine meets_bind (meets_callFunction hev ht₃ (hbound.mono hg₃) fun v hv =>
          (hargs v hv).mono ((hg₁.trans hg₂).trans hg₃)) fun m₄ n₄ _ ht₄ _ _ => ?_
        exact meets_pure ht₄ rfl trivial

theorem meets_initSuperclasses (hev : ev.Alike σ ev') {id : ObjectId} {args : List Value}
    (paren : Token) {ss : List Superclass} (h : Twins σ m n) (hid : id < m.store.heap.objects.size)
    (hargs : ∀ v ∈ args, σ.Plain m v) (hss : ∀ s ∈ ss, σ.Plain m s.toValue) :
    Meets σ m n (ev.initSuperclasses id args paren ss)
      (ev'.initSuperclasses id (args.map σ.relabel.value) (σ.relabel.token paren)
        (ss.map σ.relabel.superclass)) (fun u => u) fun _ _ => True := by
  induction ss generalizing m n with
  | nil => exact meets_pure h rfl trivial
  | cons s ss ih =>
    refine meets_bind (meets_initSuperclass hev h hid hargs paren (hss s List.mem_cons_self))
      fun m₁ n₁ _ ht₁ hg₁ _ => ?_
    exact ih ht₁ (Nat.lt_of_lt_of_le hid hg₁.heap.objects) (fun v hv => (hargs v hv).mono hg₁)
      fun s' hs' => (hss s' (List.mem_cons_of_mem s hs')).mono hg₁

/-- The superclasses of a class whose code may run. -/
theorem plain_superclasses {c : Class} (hc : σ.Plain m (.cls c)) :
    ∀ s ∈ c.superclasses, σ.Plain m s.toValue := by
  intro s hs
  cases s with
  | builtin b => trivial
  | user d => exact fun e he => hc e (Class.lineage_subset_of_superclass hs he)

/-- Making an instance does the same in both runs, from the new cell to the check of its slots. -/
theorem meets_instantiate (hev : ev.Alike σ ev') (h : Twins σ m n) {c : Class}
    (hc : σ.Plain m (.cls c)) {args : List Value} (hargs : ∀ v ∈ args, σ.Plain m v)
    (paren : Token) :
    Meets σ m n (ev.instantiate c args paren)
      (ev'.instantiate (σ.relabel.cls c) (args.map σ.relabel.value) (σ.relabel.token paren))
      σ.relabel.value fun m' v => σ.Plain m' v := by
  refine meets_bind (meets_action h paren (Builtin.keeps_newInstance h.tidy.heap hc)
    fun _ _ => Builtin.mirrors_newInstance c) fun m₁ n₁ id ht₁ hg₁ ⟨_, _, hid, _⟩ => ?_
  have hid₁ : σ.Plain m₁ (.object id) := hid
  have hargs₁ : ∀ v ∈ args, σ.Plain m₁ v := fun v hv => (hargs v hv).mono hg₁
  dsimp only [id_eq]
  rw [Relabeling.cls_ownInit?]
  cases hinit : c.ownInit? with
  | none =>
    rw [Relabeling.cls_superclasses, ← List.map_reverse]
    refine meets_bind (meets_initSuperclasses hev paren ht₁ hid hargs₁ fun s hs => ?_)
      fun m₂ n₂ _ ht₂ hg₂ _ => meets_pure ht₂ rfl (hid₁.mono hg₂)
    exact (plain_superclasses hc s (List.mem_reverse.mp hs)).mono hg₁
  | some init =>
    refine meets_bind (meets_bindMethod ht₁ (hc.ownInit? hinit) hid₁)
      fun m₂ n₂ bound ht₂ hg₂ hbound => ?_
    refine meets_bind (meets_callFunction hev ht₂ hbound fun v hv => (hargs₁ v hv).mono hg₂)
      fun m₃ n₃ _ ht₃ hg₃ _ => ?_
    refine meets_heap ?_
    rw [ht₃.object, Relabeling.object_firstUninitialized?]
    cases (m₃.store.heap.object id).firstUninitialized? with
    | some missing => exact meets_failAt ht₃ _ _
    | none => exact meets_pure ht₃ rfl (hid₁.mono (hg₂.trans hg₃))

/-! ## Calling values -/

/-- Calling a value that is no import reference gives the same in both runs. -/
theorem meets_callTarget (hev : ev.Alike σ ev') (h : Twins σ m n) {callee : Value}
    (hcallee : σ.Plain m callee) {args : List Value} (hargs : ∀ v ∈ args, σ.Plain m v)
    (paren : Token) :
    Meets σ m n (ev.callTarget callee args paren)
      (ev'.callTarget (σ.relabel.value callee) (args.map σ.relabel.value)
        (σ.relabel.token paren)) σ.relabel.value fun m' v => σ.Plain m' v := by
  cases callee with
  | function f =>
    refine meets_bind (meets_checkArity h (σ.relabel.function_arity f) args paren)
      fun m₁ n₁ _ ht₁ hg₁ _ => ?_
    exact meets_callFunction hev ht₁ (hcallee.mono hg₁) fun v hv => (hargs v hv).mono hg₁
  | native f =>
    refine meets_bind (meets_checkArity h rfl args paren) fun m₁ n₁ _ ht₁ hg₁ _ => ?_
    have hargs₁ : ∀ v ∈ args, v.Fits (σ.Code m₁.frames) m₁.store.heap := fun v hv =>
      (hargs v hv).mono hg₁
    have haction : f.action.Fits (σ.Code m₁.frames) m₁.store.heap := hcallee.mono hg₁
    exact meets_action_value ht₁ paren (Builtin.keeps_callNative ht₁.tidy.heap haction hargs₁)
      fun _ hsize => Builtin.mirrors_callNative (Setting.not_code_imported m₁.frames)
        ht₁.tidy.heap hsize haction hargs₁
  | cls c =>
    refine meets_bind (meets_checkArity h (σ.relabel.cls_arity c) args paren)
      fun m₁ n₁ _ ht₁ hg₁ _ => ?_
    exact meets_instantiate hev ht₁ (hcallee.mono hg₁) (fun v hv => (hargs v hv).mono hg₁) paren
  | builtinClass c =>
    refine meets_bind (meets_checkArity h rfl args paren) fun m₁ n₁ _ ht₁ hg₁ _ => ?_
    refine meets_bind (meets_action ht₁ paren (Builtin.keeps_construct ht₁.tidy.heap c fun v hv =>
      (hargs v hv).mono hg₁) fun _ _ => Builtin.mirrors_construct c args)
      fun m₂ n₂ d ht₂ _ hd => meets_pure ht₂ rfl hd.2.1
  | _ => exact meets_failAt h _ _

theorem meets_callValue (hev : ev.Alike σ ev') (h : Twins σ m n) {callee : Value}
    (hcallee : σ.Plain m callee) {args : List Value} (hargs : ∀ v ∈ args, σ.Plain m v)
    (paren : Token) :
    Meets σ m n (ev.callValue callee args paren)
      (ev'.callValue (σ.relabel.value callee) (args.map σ.relabel.value) (σ.relabel.token paren))
      σ.relabel.value fun m' v => σ.Plain m' v := by
  have htarget := meets_callTarget hev h hcallee hargs paren
  cases callee with
  | imported id => exact hcallee.elim
  | _ => exact htarget

/-- Calling a method by name gives the same in both runs. -/
theorem meets_callMethod (hev : ev.Alike σ ev') (h : Twins σ m n) {receiver : Value}
    (hreceiver : σ.Plain m receiver) (method : String) {args : List Value}
    (hargs : ∀ v ∈ args, σ.Plain m v) (token : Token) :
    Meets σ m n (ev.callMethod receiver method args token)
      (ev'.callMethod (σ.relabel.value receiver) method (args.map σ.relabel.value)
        (σ.relabel.token token)) σ.relabel.value fun m' v => σ.Plain m' v := by
  cases receiver with
  | datum d =>
    exact meets_action_value h token (Builtin.keeps_callMethod h.tidy.heap hreceiver method hargs)
      fun _ hsize => Builtin.mirrors_callMethod (Setting.not_code_imported m.frames) h.tidy.heap
        hsize hreceiver method hargs
  | object id =>
    refine meets_bind (meets_getProperty h hreceiver (.named method token.line))
      fun m₁ n₁ f ht₁ hg₁ hf => ?_
    exact meets_callValue hev ht₁ hf (fun v hv => (hargs v hv).mono hg₁) token
  | _ => exact meets_failAt h (.named method token.line) .undefinedMethod

end Evaluator

end ScriptEngine
