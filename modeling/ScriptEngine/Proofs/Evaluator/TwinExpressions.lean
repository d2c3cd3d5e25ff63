import ScriptEngine.Proofs.Evaluator.Expression
import ScriptEngine.Proofs.Evaluator.Subclass
import ScriptEngine.Proofs.Evaluator.TwinCalls

/-!
# Expressions in two runs

Twins that evaluate the same expression come to the same value, up to lines and numbers. Only the
name of a variable can have an import reference for its value: whatever else an expression is made
of, it follows references before it uses them.
-/

namespace ScriptEngine

open Run

variable {σ : Setting} {m n : Machine} {ev ev' : Evaluator}

namespace Evaluator

/-! ## Operators -/

/-- An operator that is not defined for `null` is refused at the same place in both runs. -/
theorem meets_nullOperation (h : Twins σ m n) (operator : Token) :
    Meets σ m n (nullOperation operator) (nullOperation (σ.relabel.token operator))
      σ.relabel.value fun m' v => σ.Plain m' v := by
  unfold nullOperation
  rw [Relabeling.token_kind]
  split
  · exact meets_pure h rfl trivial
  · exact meets_pure h rfl trivial
  · exact meets_failAt h _ _

/-- A binary operator gives the same in both runs, be it built in or a method of the left
operand. -/
theorem meets_binaryOperation (hev : ev.Alike σ ev') (h : Twins σ m n) {left right : Value}
    (hleft : σ.Plain m left) (operator : Token) (hright : σ.Plain m right) :
    Meets σ m n (ev.binaryOperation left operator right)
      (ev'.binaryOperation (σ.relabel.value left) (σ.relabel.token operator)
        (σ.relabel.value right)) σ.relabel.value fun m' v => σ.Plain m' v := by
  unfold binaryOperation
  rw [Relabeling.token_kind]
  cases operator.kind.binaryMethod? with
  | none => exact meets_failAt h _ _
  | some method =>
    have hone : ∀ {v : Value}, σ.Plain m v → ∀ w ∈ [v], σ.Plain m w := fun hv w hw => by
      rw [List.mem_singleton.mp hw]
      exact hv
    refine meets_heap ?_
    rw [hasMethod_twin h]
    split
    · exact meets_callMethod hev h hleft method (hone hright) operator
    · refine meets_heap ?_
      rw [hasMethod_twin h]
      split
      · exact meets_callMethod hev h hright method (hone hleft) operator
      · rw [Relabeling.value_isNull, Relabeling.value_isNull]
        split
        · exact meets_nullOperation h operator
        · exact meets_failAt h _ _

/-- A unary operator gives the same in both runs. -/
theorem meets_unaryOperation (hev : ev.Alike σ ev') (h : Twins σ m n) (operator : Token)
    {operand : Value} (hoperand : σ.Plain m operand) :
    Meets σ m n (ev.unaryOperation operator operand)
      (ev'.unaryOperation (σ.relabel.token operator) (σ.relabel.value operand)) σ.relabel.value
      fun m' v => σ.Plain m' v := by
  unfold unaryOperation
  rw [Relabeling.token_kind]
  cases operator.kind.unaryMethod? with
  | none => exact meets_failAt h _ _
  | some method =>
    refine meets_heap ?_
    rw [hasMethod_twin h]
    split
    · exact meets_callMethod hev h hoperand method (fun v hv => absurd hv List.not_mem_nil) operator
    · exact meets_failAt h _ _

/-- Relabeling makes no instance of what is none. -/
theorem isInstance_value (r : Relabeling) (v : Value) : isInstance (r.value v) = isInstance v := by
  cases v <;> rfl

/-- Reading at an index gives the same in both runs. -/
theorem meets_indexGet (hev : ev.Alike σ ev') (h : Twins σ m n) {object index : Value}
    (hobject : σ.Plain m object) (hindex : σ.Plain m index) (bracket : Token) :
    Meets σ m n (ev.indexGet object index bracket)
      (ev'.indexGet (σ.relabel.value object) (σ.relabel.value index) (σ.relabel.token bracket))
      σ.relabel.value fun m' v => σ.Plain m' v := by
  unfold indexGet
  rw [isInstance_value]
  dsimp only
  split
  · exact meets_failAt_bind h _ _
  · refine meets_heap ?_
    rw [hasMethod_twin h]
    split
    · exact meets_failAt_bind h _ _
    · refine meets_callMethod hev h hobject "__getitem__"
        (fun v (hv : v ∈ [index]) => ?_) bracket
      rw [List.mem_singleton.mp hv]
      exact hindex

/-- Writing at an index does the same in both runs. -/
theorem meets_indexSet (hev : ev.Alike σ ev') (h : Twins σ m n) {object index v : Value}
    (hobject : σ.Plain m object) (hindex : σ.Plain m index) (hv : σ.Plain m v) (equals : Token) :
    Meets σ m n (ev.indexSet object index v equals)
      (ev'.indexSet (σ.relabel.value object) (σ.relabel.value index) (σ.relabel.value v)
        (σ.relabel.token equals)) (fun u => u) fun _ _ => True := by
  unfold indexSet
  rw [isInstance_value]
  dsimp only
  split
  · exact meets_failAt_bind h _ _
  · refine meets_heap ?_
    rw [hasMethod_twin h]
    split
    · exact meets_failAt_bind h _ _
    · refine meets_bind (meets_callMethod hev h hobject "__setitem__"
        (fun w (hw : w ∈ [index, v]) => ?_) equals) fun m₁ n₁ _ ht₁ _ _ =>
          meets_pure ht₁ rfl trivial
      rcases List.mem_cons.mp hw with rfl | hw
      · exact hindex
      · rw [List.mem_singleton.mp hw]
        exact hv

/-! ## Classes -/

/-- The superclass that a reference names is the same class, relabeled, or refused in both runs. -/
theorem meets_evaluateSuperclass (h : Twins σ m n) {ref : Reference} (href : σ.known ref.id) :
    Meets σ m n (evaluateSuperclass ref) (evaluateSuperclass (σ.relabel.reference ref))
      σ.relabel.superclass fun m' s => σ.Plain m' s.toValue := by
  refine meets_bind (meets_lookUp h href ref.name) fun m₁ n₁ v ht₁ _ hv => ?_
  refine meets_bind (meets_deref ht₁ hv) fun m₂ n₂ w ht₂ _ hw => ?_
  cases w with
  | cls c => exact meets_pure ht₂ rfl hw
  | builtinClass b => exact meets_pure ht₂ rfl trivial
  | _ => exact meets_failAt ht₂ _ _

/-- The superclasses of a declaration are found one after the other, or the first refusal is the
same. -/
theorem meets_evaluateSuperclasses {refs : List Reference} (h : Twins σ m n)
    (hrefs : ∀ ref ∈ refs, σ.known ref.id) :
    Meets σ m n (evaluateSuperclasses refs) (evaluateSuperclasses (refs.map σ.relabel.reference))
      (List.map σ.relabel.superclass) fun m' ss => ∀ s ∈ ss, σ.Plain m' s.toValue := by
  induction refs generalizing m n with
  | nil => exact meets_pure h rfl fun s hs => absurd hs List.not_mem_nil
  | cons ref refs ih =>
    refine meets_bind (meets_evaluateSuperclass h (hrefs ref List.mem_cons_self))
      fun m₁ n₁ first ht₁ _ hfirst => ?_
    refine meets_bind (ih ht₁ fun ref' href' => hrefs ref' (List.mem_cons_of_mem ref href'))
      fun m₂ n₂ rest ht₂ hg₂ hrest => ?_
    refine meets_pure ht₂ rfl fun s hs => ?_
    rcases List.mem_cons.mp hs with rfl | hs
    · exact hfirst.mono hg₂
    · exact hrest s hs

/-- The frame of the superclasses binds the same names in both runs. -/
theorem superBindings_map (r : Relabeling) (refs : List Reference) (ss : List Superclass) :
    superBindings (refs.map r.reference) (ss.map r.superclass) =
      (superBindings refs ss).map r.binding := by
  have hzip : List.zipWith (fun (ref : Reference) s => (superBinding ref.name.lexeme, s.toValue))
      (refs.map r.reference) (ss.map r.superclass) =
      (List.zipWith (fun (ref : Reference) s => (superBinding ref.name.lexeme, s.toValue))
        refs ss).map r.binding := by
    rw [List.zipWith_map, List.map_zipWith]
    congr 1
    funext ref s
    rw [Relabeling.superclass_toValue]
    rfl
  unfold superBindings
  rw [hzip, List.map_append, List.head?_map]
  cases ss.head? with
  | none => rfl
  | some s =>
    simp only [Option.map_some, Option.toList_some, List.map_cons, List.map_nil,
      Relabeling.superclass_toValue]
    rfl

/-- The frame of the superclasses binds no name to an import reference. -/
theorem plain_superBindings {refs : List Reference} {ss : List Superclass}
    (hss : ∀ s ∈ ss, σ.Plain m s.toValue) : ∀ b ∈ superBindings refs ss, σ.Plain m b.2 := by
  intro b hb
  rcases List.mem_append.mp hb with hb | hb
  · obtain ⟨s, hs, rfl⟩ := Option.map_eq_some_iff.mp (Option.mem_toList.mp hb)
    exact hss s (List.mem_of_head? hs)
  · obtain ⟨i, hi, rfl⟩ := List.mem_iff_getElem.mp hb
    rw [List.getElem_zipWith]
    exact hss _ (List.getElem_mem _)

/-- The frame in which the methods of a class are made has the same number in both runs. -/
theorem meets_methodFrame (h : Twins σ m n) (refs : List Reference) {ss : List Superclass}
    (hss : ∀ s ∈ ss, σ.Plain m s.toValue) :
    Meets σ m n (methodFrame refs ss)
      (methodFrame (refs.map σ.relabel.reference) (ss.map σ.relabel.superclass)) (fun f => f)
      fun m' _ => m'.current = m.current := by
  unfold methodFrame
  rw [superBindings_map, List.isEmpty_map]
  split
  · exact meets_get (meets_pure h h.current rfl)
  · exact Meets.post (meets_childFrame h (plain_superBindings hss)) fun _ _ _ _ _ hp => hp.1

/-- The methods of a class are made in the same order, each with the code of its declaration. -/
theorem meets_makeMethods {className : String} {closure : FrameId} {home : ModuleId}
    {decls : List FunctionDecl} {made : List (String × Function)} (h : Twins σ m n)
    (hdecls : everyDecls σ.part decls) (hmade : ∀ e ∈ made, everyDecl σ.part e.2.decl) :
    Meets σ m n (makeMethods className closure home decls made)
      (makeMethods className closure home (decls.map σ.relabel.decl)
        (made.map fun e => (e.1, σ.relabel.function e.2)))
      (List.map fun e => (e.1, σ.relabel.function e.2))
      fun m' methods => m'.current = m.current ∧ ∀ e ∈ methods, everyDecl σ.part e.2.decl := by
  induction decls generalizing m n made with
  | nil => exact meets_pure h rfl ⟨rfl, hmade⟩
  | cons decl decls ih =>
    refine meets_bind (meets_fresh h) ?_
    rintro m₁ n₁ id ht₁ - rfl
    dsimp only
    rw [Relabeling.decl_name, Relabeling.token_lexeme]
    refine ih ht₁ hdecls.2 fun e (he : e ∈ (decl.name.lexeme, _) :: made) => ?_
    rcases List.mem_cons.mp he with rfl | he
    · exact hdecls.1
    · exact hmade e he

/-- A class is made of methods and superclasses whose code may run. -/
theorem plain_cls {id : Identity} {name : String} {ss : List Superclass}
    {methods : List (String × Function)} (hss : ∀ s ∈ ss, σ.Plain m s.toValue)
    (hmethods : ∀ e ∈ methods, everyDecl σ.part e.2.decl) :
    σ.Plain m (.cls (.mk id name ss methods)) := by
  intro d hd e he
  rcases List.mem_cons.mp hd with rfl | hd
  · exact hmethods e he
  · obtain ⟨c, hc, hmem⟩ := mem_ancestors hd
    exact hss _ hc d hmem e he

/-- Declaring a class does the same in both runs, and binds its name to no import reference. -/
theorem meets_declareClass (h : Twins σ m n) (name : Token) {refs : List Reference}
    (hrefs : ∀ ref ∈ refs, σ.known ref.id) {decls : List FunctionDecl}
    (hdecls : everyDecls σ.part decls) :
    Meets σ m n (declareClass name refs decls)
      (declareClass (σ.relabel.token name) (refs.map σ.relabel.reference)
        (decls.map σ.relabel.decl)) (fun u => u)
      fun m' _ => m'.frames.BindsPlain m'.current name.lexeme := by
  refine meets_bind (meets_evaluateSuperclasses h hrefs) fun m₁ n₁ ss ht₁ _ hss => ?_
  refine meets_bind (meets_define ht₁ name (v := .null) trivial) fun m₂ n₂ _ ht₂ hg₂ hdef => ?_
  refine meets_bind (meets_methodFrame ht₂ refs fun s hs => (hss s hs).mono hg₂)
    fun m₃ n₃ closure ht₃ hg₃ hc₃ => ?_
  refine meets_bind (meets_activeModule ht₃) ?_
  rintro m₄ n₄ home ht₄ - ⟨rfl, -⟩
  refine meets_bind (meets_makeMethods ht₄ hdecls fun e (he : e ∈ []) =>
    absurd he List.not_mem_nil) fun m₅ n₅ methods ht₅ hg₅ ⟨hc₅, hmethods⟩ => ?_
  refine meets_bind (meets_fresh ht₅) ?_
  rintro m₆ n₆ id ht₆ hg₆ rfl
  have hg := (hg₃.trans hg₅).trans hg₆
  have hclass : σ.Plain (m₅.withHeap m₅.store.heap.fresh.2)
      (.cls (.mk id name.lexeme ss methods)) :=
    plain_cls (fun s hs => (hss s hs).mono (hg₂.trans hg)) hmethods
  refine meets_get ?_
  have hvalue : Value.cls (.mk id (σ.relabel.token name).lexeme (ss.map σ.relabel.superclass)
      (methods.map fun e => (e.1, σ.relabel.function e.2))) =
      σ.relabel.value (.cls (.mk id name.lexeme ss methods)) := by
    rw [← Relabeling.superclasses_eq_map]
    rfl
  rw [hvalue, ht₆.current]
  refine Meets.post (meets_write ht₆ ?_ name hclass) ?_
  · rw [ht₆.frames]
    exact σ.relabel.frames_target _ _ _
  · -- The name has been bound since before the methods were made, and in this very frame.
    rintro m₇ n₇ - - hg₇ ⟨f, -, rfl⟩
    have hcurrent : m₅.current = m₂.current := hc₅.trans hc₃
    show Frames.BindsPlain _ m₅.current _
    rw [hcurrent]
    exact (hg.trans hg₇).plain _ _ hdef.2

/-! ## Methods of superclasses -/

/-- The initializer of a built-in superclass is the same function in both runs. -/
theorem meets_superInit (h : Twins σ m n) (className : String) (arity : Nat) {act : NativeAction}
    (hact : act.Fits (σ.Code m.frames) m.store.heap) :
    Meets σ m n (superInit className arity act) (superInit className arity act) σ.relabel.value
      fun m' v => σ.Plain m' v := by
  refine meets_bind (meets_fresh h) fun m₁ n₁ id ht₁ hg₁ _ => ?_
  exact meets_pure ht₁ rfl (hact.mono hg₁.heap fun _ => Setting.code_mono hg₁.plain)

/-- A method that was found and whose code may run. -/
def MethodPlain (σ : Setting) : Option Method → Prop
  | some (.user f) => everyDecl σ.part f.decl
  | _ => True

/-- A method that was found above a class is bound to the same receiver, or refused in both runs. -/
theorem meets_bindSuperMethod (h : Twins σ m n) {id : ObjectId}
    (hid : id < m.store.heap.objects.size) (method : Token) {found : Option Method}
    (hfound : MethodPlain σ found) :
    Meets σ m n (bindSuperMethod id method found)
      (bindSuperMethod id (σ.relabel.token method) (found.map σ.relabel.method)) σ.relabel.value
      fun m' v => σ.Plain m' v := by
  cases found with
  | none => exact meets_failAt h _ _
  | some f =>
    cases f with
    | user f =>
      refine meets_bind (meets_bindMethod h hfound (show σ.Plain m (.object id) from hid))
        fun m₁ n₁ g ht₁ _ hg => ?_
      exact meets_pure ht₁ rfl hg
    | builtin b =>
      show Meets σ m n
        (if method.lexeme = "init" then _ else _) (if method.lexeme = "init" then _ else _) _ _
      split
      · refine meets_bind (meets_setStatus h id b.name .initializing) fun m₁ n₁ _ ht₁ hg₁ _ => ?_
        have hvouched : Vouched (σ.Code m₁.frames) id b :=
          ⟨⟨0, "", 0, .superInit id b⟩, rfl, trivial⟩
        exact meets_superInit ht₁ _ _ ⟨Nat.lt_of_lt_of_le hid hg₁.heap.objects, hvouched⟩
      · refine meets_heap ?_
        rw [h.object, Relabeling.object_native?]
        cases hd : (m.store.heap.object id).native? b with
        | none => exact meets_failAt h _ _
        | some d =>
          refine meets_bind (meets_action h method
            (Builtin.keeps_bindMethod? h.tidy.heap (h.tidy.heap.native? hd) _)
            fun _ _ => Builtin.mirrors_bindMethod? d method.lexeme) fun m₁ n₁ v? ht₁ _ hv? => ?_
          cases v? with
          | some v => exact meets_pure ht₁ rfl (Setting.plain_of_frames hv?.1 (hv?.2 v rfl))
          | none => exact meets_failAt ht₁ _ _

/-- Looking for a method in a superclass of the program's own gives the same in both runs. -/
theorem meets_userSuperMethod (h : Twins σ m n) {id : ObjectId}
    (hid : id < m.store.heap.objects.size) {parent : Class} (hparent : σ.Plain m (.cls parent))
    (method : Token) :
    Meets σ m n (userSuperMethod id parent method)
      (userSuperMethod id (σ.relabel.cls parent) (σ.relabel.token method)) σ.relabel.value
      fun m' v => σ.Plain m' v := by
  have hfound : MethodPlain σ (parent.findMethod? method.lexeme) := by
    cases hf : parent.findMethod? method.lexeme with
    | none => trivial
    | some f =>
      cases f with
      | user f => exact hparent.method hf
      | builtin b => trivial
  have hbind : ∀ {m' n' : Machine}, Twins σ m' n' → m.Grown m' →
      Meets σ m' n' (bindSuperMethod id method (parent.findMethod? method.lexeme))
        (bindSuperMethod id (σ.relabel.token method)
          ((σ.relabel.cls parent).findMethod? (σ.relabel.token method).lexeme)) σ.relabel.value
        fun m' v => σ.Plain m' v := by
    intro m' n' ht hg
    rw [Relabeling.cls_findMethod?, Relabeling.token_lexeme]
    exact meets_bindSuperMethod ht (Nat.lt_of_lt_of_le hid hg.heap.objects) method hfound
  unfold userSuperMethod
  dsimp only
  rw [Relabeling.cls_ownInit?, Option.isSome_map, Relabeling.cls_name]
  by_cases hinit : method.lexeme = "init"
  · rw [if_pos hinit, if_pos (show (σ.relabel.token method).lexeme = "init" from hinit)]
    split
    · exact meets_bind (meets_setStatus h _ _ _) fun m₁ n₁ _ ht₁ hg₁ _ => hbind ht₁ hg₁
    · refine meets_bind (meets_setStatus h _ _ _) fun m₁ n₁ _ ht₁ hg₁ _ => ?_
      have hnone : ((σ.relabel.cls parent).findMethod? (σ.relabel.token method).lexeme).isNone =
          (parent.findMethod? method.lexeme).isNone := by
        rw [Relabeling.cls_findMethod?, Option.isNone_map]
        rfl
      rw [hnone]
      split
      · exact meets_superInit ht₁ _ _ trivial
      · exact hbind ht₁ hg₁
  · rw [if_neg hinit, if_neg (show ¬ (σ.relabel.token method).lexeme = "init" from hinit)]
    exact hbind h (.refl m)

/-- A `super` expression gives the same in both runs. -/
theorem meets_superMethod (h : Twins σ m n) {id : ExprId} (hid : σ.known id)
    (keyword className method : Token) :
    Meets σ m n (superMethod id keyword className method)
      (superMethod (σ.relabel.number id) (σ.relabel.token keyword) (σ.relabel.token className)
        (σ.relabel.token method)) σ.relabel.value fun m' v => σ.Plain m' v := by
  refine meets_bind (meets_distance? h hid) ?_
  rintro m₁ n₁ d? h₁ - rfl
  cases d? with
  | none => exact meets_failAt h₁ _ _
  | some d =>
    refine meets_get (meets_bind (f := fun f => f) (P := fun m' _ => m' = m₁)
      (meets_ofExcept h₁ ?_ fun f _ => rfl) ?_)
    · rw [h₁.current, h₁.frames, Relabeling.frames_ancestor, Relabeling.except_ancestor]
    rintro m₂ n₂ frame h₂ - rfl
    rw [h₁.local?, Relabeling.token_lexeme]
    cases hlocal : m₂.frames.local? frame (superBinding className.lexeme) with
    | none => exact meets_failAt h₂ _ _
    | some superclass =>
      cases d with
      | zero => exact meets_fail h₂ (.internal .noThisFrame)
      | succ inner =>
        refine meets_bind (f := σ.relabel.value) (P := fun m' v => m' = m₂ ∧ σ.Seen m₂ v)
          (meets_ofExcept h₂ ?_ fun v hv => ?_) ?_
        · rw [h₁.current, h₁.frames]
          exact σ.relabel.frames_getAt _ _ _ _
        · obtain ⟨g, hg⟩ := ok_of_getAt hv
          exact ⟨rfl, h₁.seen hg⟩
        rintro m₃ n₃ this h₃ - ⟨rfl, hthis⟩
        cases this with
        | object object =>
          have hobject : object < m₃.store.heap.objects.size := hthis.resolve_right fun h => h
          cases superclass with
          | cls parent =>
            have hparent : σ.Plain m₃ (.cls parent) := (h₁.seen hlocal).resolve_right fun h => h
            exact meets_userSuperMethod h₃ hobject hparent method
          | builtinClass b =>
            show Meets σ m₃ n₃ (bindSuperMethod object method
                (if b.hasMethod method.lexeme then some (.builtin b) else none))
              (bindSuperMethod object (σ.relabel.token method)
                (if b.hasMethod method.lexeme then some (.builtin b) else none)) _ _
            split
            · exact meets_bindSuperMethod h₃ hobject method
                (show MethodPlain σ (some (.builtin b)) from trivial)
            · exact meets_bindSuperMethod h₃ hobject method
                (show MethodPlain σ none from trivial)
          | _ => exact meets_fail h₃ (.internal .superNotClass)
        | _ => exact meets_fail h₃ (.internal .thisNotInstance)

/-! ## Values of expressions -/

/-- An operand comes to the same in both runs, and never to an import reference. -/
theorem meets_value (hev : ev.Alike σ ev') (h : Twins σ m n) {e : Expr}
    (he : everyExpr σ.part e) :
    Meets σ m n (ev.value e) (ev'.value (σ.relabel.expr e)) σ.relabel.value
      fun m' v => σ.Plain m' v :=
  meets_bind (hev.evaluate h he) fun _ _ _ ht _ hv => meets_deref ht hv.seen

/-- Arguments come to the same, from left to right, and none to an import reference. -/
theorem meets_values (hev : ev.Alike σ ev') {es : List Expr} (h : Twins σ m n)
    (hes : everyExprs σ.part es) :
    Meets σ m n (ev.values es) (ev'.values (es.map σ.relabel.expr)) (List.map σ.relabel.value)
      fun m' vs => ∀ v ∈ vs, σ.Plain m' v := by
  induction es generalizing m n with
  | nil => exact meets_pure h rfl fun v hv => absurd hv List.not_mem_nil
  | cons e es ih =>
    refine meets_bind (meets_value hev h hes.1) fun m₁ n₁ first ht₁ _ hfirst => ?_
    refine meets_bind (ih ht₁ hes.2) fun m₂ n₂ rest ht₂ hg₂ hrest => ?_
    refine meets_pure ht₂ rfl fun v hv => ?_
    rcases List.mem_cons.mp hv with rfl | hv
    · exact hfirst.mono hg₂
    · exact hrest v hv

/-- The keys and values of a map are no import references. -/
def EntriesPlain (σ : Setting) (m : Machine) (cell : MapCell) : Prop :=
  ∀ e ∈ cell.entries, σ.Plain m e.1 ∧ σ.Plain m e.2

/-- The entries of a map come to the same, and neither their keys nor their values to import
references. -/
theorem meets_mapValues (hev : ev.Alike σ ev') {entries : List (Token × Expr)} {cell : MapCell}
    (h : Twins σ m n) (hentries : everyEntry σ.part entries) (hcell : EntriesPlain σ m cell) :
    Meets σ m n (ev.mapValues entries cell)
      (ev'.mapValues (entries.map fun e => (σ.relabel.token e.1, σ.relabel.expr e.2))
        (σ.relabel.mapCell cell)) σ.relabel.mapCell (EntriesPlain σ) := by
  induction entries generalizing m n cell with
  | nil => exact meets_pure h rfl hcell
  | cons entry entries ih =>
    obtain ⟨key, e⟩ := entry
    refine meets_bind (meets_value hev h hentries.1) fun m₁ n₁ v ht₁ hg₁ hv => ?_
    refine meets_heap ?_
    have hsame : σ.relabel.SameUnder m₁.store.heap.equals n₁.store.heap.equals := by
      rw [ht₁.heap]
      exact m₁.store.heap.equals_image _ ht₁.cells.size
    have hinsert := hsame.insert cell (.string key.lexeme) v
    have hcell₁ : EntriesPlain σ m₁ cell := fun e he =>
      ⟨(hcell e he).1.mono hg₁, (hcell e he).2.mono hg₁⟩
    have hkey : σ.Plain m₁ (.string key.lexeme) := trivial
    have hnew : EntriesPlain σ m₁ (cell.insert m₁.store.heap.equals (.string key.lexeme) v) :=
      Heap.forall_putEntry (P := σ.Plain m₁) hkey hv hcell₁
    have hrest := ih ht₁ hentries.2 hnew
    rw [← hinsert] at hrest
    exact hrest

/-- A constant holds no code that relabeling could change. -/
theorem constantValue_same (r : Relabeling) (c : Constant) :
    r.value (constantValue c) = constantValue c := by
  cases c <;> rfl

theorem plain_constantValue (c : Constant) : σ.Plain m (constantValue c) := by
  cases c <;> trivial

/-- A function that is made in both runs has the same number, and the code of its declaration. -/
theorem meets_closure (h : Twins σ m n) {decl : FunctionDecl} (hdecl : everyDecl σ.part decl) :
    Meets σ m n (closure decl) (closure (σ.relabel.decl decl)) σ.relabel.value
      fun m' v => σ.Plain m' v := by
  refine meets_bind (meets_activeModule h) ?_
  rintro m₁ n₁ home h₁ - ⟨rfl, -⟩
  refine meets_bind (meets_fresh h₁) fun m₂ n₂ id h₂ _ _ => ?_
  refine meets_get (meets_pure h₂ ?_ ⟨hdecl, fun hinit => absurd hinit Bool.false_ne_true⟩)
  rw [h₂.current]
  rfl

theorem meets_call (hev : ev.Alike σ ev') (h : Twins σ m n) {callee : Expr}
    (hcallee : everyExpr σ.part callee) (paren : Token) {arguments : List Expr}
    (harguments : everyExprs σ.part arguments) :
    Meets σ m n (ev.call callee paren arguments)
      (ev'.call (σ.relabel.expr callee) (σ.relabel.token paren)
        (arguments.map σ.relabel.expr)) σ.relabel.value fun m' v => σ.Plain m' v := by
  refine meets_bind (hev.evaluate h hcallee) fun m₁ n₁ f h₁ _ hf => ?_
  refine meets_bind (meets_values hev h₁ harguments) fun m₂ n₂ args h₂ hg₂ hargs => ?_
  have hf₂ := hf.seen.mono hg₂
  have hplain := fun (hp : σ.Plain m₂ f) => meets_callValue hev h₂ hp hargs paren
  cases f with
  | imported id =>
    refine meets_throughImport h₂ (hf₂.resolve_left fun h => h) fun m₃ n₃ target h₃ hg₃ ht => ?_
    exact meets_callValue hev h₃ ht (fun v hv => (hargs v hv).mono hg₃) paren
  | _ => exact hplain (hf₂.resolve_right fun h => h)

/-- Reading a property gives the same in both runs. -/
theorem meets_property (hev : ev.Alike σ ev') (h : Twins σ m n) {object : Expr}
    (hobject : everyExpr σ.part object) (name : Token) :
    Meets σ m n (ev.property object name)
      (ev'.property (σ.relabel.expr object) (σ.relabel.token name)) σ.relabel.value
      fun m' v => σ.Plain m' v := by
  refine meets_bind (hev.evaluate h hobject) fun m₁ n₁ v h₁ _ hv => ?_
  have hplain := fun (hp : σ.Plain m₁ v) => meets_getProperty h₁ hp name
  cases v with
  | imported id =>
    exact meets_throughImport h₁ (hv.seen.resolve_left fun h => h) fun m₂ n₂ target h₂ _ ht =>
      meets_getProperty h₂ ht name
  | _ => exact hplain (hv.seen.resolve_right fun h => h)

/-- Writing a property does the same in both runs. -/
theorem meets_setProperty (hev : ev.Alike σ ev') (h : Twins σ m n) {object e : Expr}
    (hobject : everyExpr σ.part object) (name : Token) (he : everyExpr σ.part e) :
    Meets σ m n (ev.setProperty object name e)
      (ev'.setProperty (σ.relabel.expr object) (σ.relabel.token name) (σ.relabel.expr e))
      σ.relabel.value fun m' v => σ.Plain m' v := by
  refine meets_bind (meets_value hev h hobject) fun m₁ n₁ o h₁ _ ho => ?_
  cases o with
  | object id =>
    refine meets_bind (meets_value hev h₁ he) fun m₂ n₂ v h₂ _ hv => ?_
    have hkeeps : (m₂.store.heap.object id).Keeps ((m₂.store.heap.object id).Opens (id < 0))
        ((m₂.store.heap.object id).setField name.lexeme v) := .of_statuses rfl rfl
    exact meets_bind (meets_modifyHeap h₂ (Heap.grows_modifyObject hkeeps)
      (h₂.tidy.heap.setField id name.lexeme hv) rfl
      fun imports _ => m₂.store.heap.modifyObject_image imports id fun i =>
        σ.relabel.object_setField i name.lexeme v) fun m₃ n₃ _ h₃ hg₃ _ =>
          meets_pure h₃ rfl (hv.mono hg₃)
  | _ => exact meets_failAt h₁ _ _

/-- One step of evaluation: the parts of an expression are evaluated by the two evaluators. -/
theorem meets_evaluateStep (hev : ev.Alike σ ev') (h : Twins σ m n) {e : Expr}
    (he : everyExpr σ.part e) :
    Meets σ m n (ev.evaluateStep e) (ev'.evaluateStep (σ.relabel.expr e)) σ.relabel.value
      (σ.Valued e) := by
  have hplain : ∀ {x y : Run Value}, (Meets σ m n x y σ.relabel.value fun m' v => σ.Plain m' v) →
      Meets σ m n x y σ.relabel.value (σ.Valued e) :=
    fun hm => hm.post fun _ _ _ _ _ hp => .inl hp
  cases e with
  | constant id c =>
    exact hplain (meets_pure h (constantValue_same σ.relabel c).symm (plain_constantValue c))
  | reference ref =>
    have hknown : σ.known ref.id := σ.looked _ he _ List.mem_cons_self
    exact Meets.post (meets_lookUp h hknown ref.name) fun _ _ _ _ _ hv =>
      hv.imp_right fun hr => ⟨hr, trivial⟩
  | assign id name e =>
    refine hplain (meets_bind (meets_value hev h he.2) fun m₁ n₁ v h₁ _ hv => ?_)
    have hknown : σ.known id := σ.looked _ he.1 _ List.mem_cons_self
    refine meets_bind (meets_assign h₁ hknown name hv) fun m₂ n₂ _ h₂ hg₂ _ => ?_
    exact meets_pure h₂ rfl (hv.mono hg₂)
  | grouping id inner => exact hplain (meets_value hev h he.2)
  | binary id left operator right =>
    refine hplain (meets_bind (meets_value hev h he.2.1) fun m₁ n₁ l h₁ _ hl => ?_)
    refine meets_bind (meets_value hev h₁ he.2.2) fun m₂ n₂ r h₂ hg₂ hr => ?_
    exact meets_binaryOperation hev h₂ (hl.mono hg₂) operator hr
  | unary id operator operand =>
    refine hplain (meets_bind (meets_value hev h he.2) fun m₁ n₁ v h₁ _ hv => ?_)
    exact meets_unaryOperation hev h₁ operator hv
  | logical id left operator right =>
    refine hplain (meets_bind (meets_value hev h he.2.1) fun m₁ n₁ l h₁ _ hl => ?_)
    dsimp only
    rw [Relabeling.token_kind, Relabeling.value_isTruthy]
    cases (if operator.kind = .or then l.isTruthy else !l.isTruthy) with
    | true => exact meets_pure h₁ rfl hl
    | false => exact meets_value hev h₁ he.2.2
  | call id callee paren arguments =>
    rw [Relabeling.expr, Relabeling.exprs_eq_map]
    exact hplain (meets_call hev h he.2.1 paren he.2.2)
  | get id object name => exact hplain (meets_property hev h he.2 name)
  | set id object name e => exact hplain (meets_setProperty hev h he.2.1 name he.2.2)
  | getItem id object bracket index =>
    refine hplain (meets_bind (meets_value hev h he.2.1) fun m₁ n₁ o h₁ _ ho => ?_)
    refine meets_bind (meets_value hev h₁ he.2.2) fun m₂ n₂ i h₂ hg₂ hi => ?_
    exact meets_indexGet hev h₂ (ho.mono hg₂) hi bracket
  | setItem id object index equals e =>
    refine hplain (meets_bind (meets_value hev h he.2.1) fun m₁ n₁ o h₁ _ ho => ?_)
    refine meets_bind (meets_value hev h₁ he.2.2.1) fun m₂ n₂ i h₂ hg₂ hi => ?_
    refine meets_bind (meets_value hev h₂ he.2.2.2) fun m₃ n₃ v h₃ hg₃ hv => ?_
    refine meets_bind (meets_indexSet hev h₃ (ho.mono (hg₂.trans hg₃)) (hi.mono hg₃) hv equals)
      fun m₄ n₄ _ h₄ hg₄ _ => ?_
    exact meets_pure h₄ rfl (hv.mono hg₄)
  | self id keyword =>
    have hknown : σ.known id := σ.looked _ he _ List.mem_cons_self
    exact Meets.post (meets_lookUp h hknown keyword) fun _ _ _ _ _ hv =>
      hv.imp_right fun hr => ⟨hr, trivial⟩
  | super id keyword className method =>
    have hknown : σ.known id := σ.looked _ he _ List.mem_cons_self
    exact hplain (meets_superMethod h hknown keyword className method)
  | array id elements =>
    rw [Relabeling.expr, Relabeling.exprs_eq_map]
    refine hplain (meets_bind (meets_values hev h he.2) fun m₁ n₁ items h₁ _ hitems => ?_)
    have hfit : (m₁.store.heap.newArray (.ofItems items.toArray)).2.Fit (σ.Code m₁.frames) :=
      h₁.tidy.heap.newArray fun v hv => hitems v (List.mem_toArray.mp hv)
    refine meets_bind (meets_onHeap h₁ (Heap.grows_newArray 0 _ _) hfit rfl (f := fun i => i)
      fun imports _ => ?_) fun m₂ n₂ _ h₂ _ _ => meets_pure h₂ rfl trivial
    rw [← List.map_toArray]
    exact m₁.store.heap.newArray_image σ.relabel imports (.ofItems items.toArray)
  | map id entries =>
    rw [Relabeling.expr, Relabeling.entries_eq_map]
    have hempty : EntriesPlain σ m ⟨[]⟩ := fun e he => absurd he List.not_mem_nil
    refine hplain (meets_bind (meets_mapValues hev h he.2 hempty) fun m₁ n₁ cell h₁ _ hcell => ?_)
    have hfit : (m₁.store.heap.newMap cell).2.Fit (σ.Code m₁.frames) := h₁.tidy.heap.newMap hcell
    refine meets_bind (meets_onHeap h₁ (Heap.grows_newMap 0 _ _) hfit rfl (f := fun i => i)
      fun imports _ => m₁.store.heap.newMap_image σ.relabel imports cell)
      fun m₂ n₂ _ h₂ _ _ => meets_pure h₂ rfl trivial
  | lambda id decl => exact hplain (meets_closure h he.2)

end Evaluator

end ScriptEngine
