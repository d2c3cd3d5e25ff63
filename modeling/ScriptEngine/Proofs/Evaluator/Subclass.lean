import ScriptEngine.Proofs.Evaluator.Instantiation

/-!
# Class declarations and superclass methods at run time

A class that is declared finds its superclasses by the names in its head, and its methods are made
in a frame for them. So a superclass access in a method walks to that frame, with the frame of
`this` one step inside, and what it finds there is a superclass of a class in the lineage of the
instance. This is why the access binds the method to an instance that has it, and why only the
slots of superclasses can be opened in this way.
-/

namespace ScriptEngine

open Scope hiding bind

section

variable {settled : Nat} {w w' : World} {m m' : Machine} {home : ModuleId} {stack : Stack}

/-! ## Superclass methods -/

/-- The initializer of a superclass as a value can be followed. -/
theorem tracks_superInit (hs : Sound settled w m) (className : String) (arity : Nat)
    {act : NativeAction} (hact : act.Fits (CodeValue w m) m.store.heap) :
    Tracks settled w m (fun _ => Evaluator.superInit className arity act) ValueOk := by
  refine tracks_bind (tracks_fresh hs) fun w₁ m₁ id h₁ _ => ?_
  exact tracks_pure h₁.sound
    (NativeAction.Fits.mono hact h₁.moves.heap fun _ hc => hc.mono h₁.moves)

/-- The initializer of a built-in class above an instance may replace what backs it. -/
theorem fits_superInit {id : ObjectId} (hid : id < m.store.heap.objects.size) {b : BuiltinClass}
    (hb : b ∈ (m.store.heap.object id).cls.builtinAncestors) :
    (NativeAction.superInit id b).Fits (CodeValue w m) m.store.heap := by
  refine ⟨hid, ⟨0, "", 0, .superInit id b⟩, rfl, ?_⟩
  intro object c heq
  obtain ⟨rfl, rfl⟩ : id = object ∧ b = c := by simpa using heq
  exact ⟨hid, hb⟩

/-- Opening a slot that the program can open. -/
theorem tracks_reopen (hs : Sound settled w m) {id : ObjectId} {name : String}
    (h : (m.store.heap.object id).cls.Reopens name) :
    Tracks settled w m (fun _ => Evaluator.setStatus id name .initializing) fun _ _ _ => True :=
  (tracks_modifyHeap hs
    (Heap.grows_modifyObject (Instance.keeps_setStatus _ _ _ (Or.inr fun _ => h)))
    (hs.heap.setStatus id name .initializing)).post fun _ _ _ _ _ => trivial

/-- Binding what a superclass answers can be followed if it is declared in the lineage. -/
theorem tracks_bindSuperMethod (hs : Sound settled w m) {id : ObjectId}
    (hid : id < m.store.heap.objects.size) {method : Token} {found : Option Method}
    (huser : ∀ f, found = some (.user f) →
      ∃ c ∈ (m.store.heap.object id).cls.lineage, (method.lexeme, f) ∈ c.methods)
    (habove : ∀ b, found = some (.builtin b) →
      b ∈ (m.store.heap.object id).cls.builtinAncestors)
    (hbuiltin : ∀ b, found = some (.builtin b) → method.lexeme = "init" →
      (m.store.heap.object id).cls.Reopens b.name) :
    Tracks settled w m (fun _ => Evaluator.bindSuperMethod id method found) ValueOk := by
  unfold Evaluator.bindSuperMethod
  split
  · next f =>
    obtain ⟨c, hc, hf⟩ := huser f rfl
    refine tracks_bind (tracks_bindMethod hs hid hc hf) fun w₁ m₁ bound h₁ hbound => ?_
    exact tracks_pure h₁.sound hbound.1
  · next b =>
    split
    · next hinit =>
      -- The slot is opened when the initializer is named, whether or not it is called then.
      refine tracks_bind (tracks_reopen hs (hbuiltin b rfl hinit)) fun w₁ m₁ _ h₁ _ => ?_
      exact tracks_superInit h₁.sound _ _ ((fits_superInit hid (habove b rfl)).mono
        h₁.moves.heap fun _ hc => hc.mono h₁.moves)
    · refine tracks_heap ?_
      split
      · exact tracks_failAt hs _ _
      · next native hnative =>
        refine tracks_bind (tracks_action hs
          (Builtin.keeps_bindMethod? hs.heap (hs.heap.native? hnative) method.lexeme)) ?_
        intro w₁ m₁ f? h₁ hf
        cases f? with
        | some f => exact tracks_pure h₁.sound (.of_fits (hf.2 f rfl) h₁.moves)
        | none => exact tracks_failAt h₁.sound _ _
  · exact tracks_failAt hs _ _

/-- A method of a superclass `parent` of a class `c` in the lineage of the instance. -/
theorem tracks_userSuperMethod (hs : Sound settled w m) {id : ObjectId}
    (hid : id < m.store.heap.objects.size) {c parent : Class}
    (hc : c ∈ (m.store.heap.object id).cls.lineage)
    (hparent : Superclass.user parent ∈ c.superclasses) {method : Token}
    (hasks : method.lexeme = "init" → c.AsksInit) :
    Tracks settled w m (fun _ => Evaluator.userSuperMethod id parent method) ValueOk := by
  have hlineage : parent.lineage ⊆ (m.store.heap.object id).cls.lineage := fun d hd =>
    Class.lineage_subset c _ hc (Class.lineage_subset_of_superclass hparent hd)
  -- The method is bound after the slots have been dealt with, in whatever machine that has left.
  have hbind : ∀ {w₁ m₁}, Advances settled m.SamePlace w m w₁ m₁ →
      Tracks settled w₁ m₁
        (fun _ => Evaluator.bindSuperMethod id method (parent.findMethod? method.lexeme))
        ValueOk := by
    intro w₁ m₁ h₁
    have hcls := (h₁.moves.heap.instances id hid).cls
    refine tracks_bindSuperMethod h₁.sound (Nat.lt_of_lt_of_le hid h₁.moves.heap.objects)
      (fun f hf => ?_) (fun b hb => ?_) fun b hb hinit => ?_
    · obtain ⟨d, hd, hmem⟩ := Class.mem_methods_of_findMethod? parent hf
      exact ⟨d, hcls ▸ hlineage hd, hmem⟩
    · rw [hcls]
      exact Class.builtinAncestors_subset (hlineage parent.mem_lineage_self)
        (Class.mem_builtinAncestors_of_findMethod? hb)
    · obtain ⟨d, hd, hmem⟩ := Class.mem_superclasses_of_findMethod? parent hb
      rw [hcls]
      exact ⟨c, hc, hasks hinit, Or.inr ⟨d, Class.lineage_subset_of_superclass hparent hd, b,
        hmem, rfl⟩⟩
  have hhere : Advances settled m.SamePlace w m w m := ⟨.refl settled w m, hs, .refl m⟩
  unfold Evaluator.userSuperMethod
  dsimp only
  split
  · next hinit =>
    split
    · next hown =>
      have hopen : (m.store.heap.object id).cls.Reopens parent.name :=
        ⟨c, hc, hasks hinit, Or.inl ⟨.user parent, hparent, hown, rfl⟩⟩
      exact tracks_bind (tracks_reopen hs hopen) fun w₁ m₁ _ h₁ _ => hbind h₁
    · refine tracks_bind (tracks_setInitialized hs id parent.name) fun w₁ m₁ _ h₁ _ => ?_
      split
      · exact tracks_superInit h₁.sound _ _ trivial
      · exact hbind h₁
  · exact hbind hhere

/-- The last hop may be taken apart from the others. -/
theorem hops?_succ (fs : Frames) (n : Nat) :
    ∀ f, fs.hops? f (n + 1) = (fs.hops? f n).bind fun g => (fs.frame g).enclosing? := by
  induction n with
  | zero =>
    intro f
    simp [Frames.hops?]
  | succ n ih =>
    intro f
    rw [Frames.hops?, Frames.hops?, Option.bind_assoc]
    exact congrArg _ (funext ih)

/-- A superclass access finds the frame of its superclasses and, one step inside, that of
`this`. -/
theorem tracks_superMethod {id : ExprId} {keyword className method : Token}
    (hr : Ready settled w m home stack (exprUses stack (.super id keyword className method))
      (exprMarks (.super id keyword className method))) :
    Tracks settled w m (fun _ => Evaluator.superMethod id keyword className method) ValueOk := by
  have hs := hr.sound
  have hkeyword : keyword.lexeme = "super" :=
    hr.code.proper (.access keyword method) (by simp [exprMarks])
  obtain ⟨program, -, hp⟩ :=
    hr.placed_here (u := ⟨id, keyword.lexeme, .super, stack⟩) (by simp [exprUses]) rfl
  refine tracks_read (distance?_eq hr.active id) ?_
  rw [hp.recorded]
  cases hd : distance? stack.layers keyword.lexeme with
  | none => exact tracks_failAt hs _ _
  | some d =>
    rw [hkeyword] at hd
    -- The shape of the scopes: where `super` is found, the scope just inside is that of a `this`.
    obtain ⟨k, decls, refs, rest, rfl, hdrop⟩ := sites_of_super hr.code.shape hd
    have hk : k < stack.sites.length := by
      refine Nat.lt_of_not_le fun hle => ?_
      rw [List.drop_eq_nil_of_le hle] at hdrop
      cases hdrop
    obtain ⟨f, hf, ho, -⟩ := hr.chain.hops.1 k hk
    rw [hdrop] at ho
    -- `c` is the class that the method was written in, which need not be that of the instance.
    obtain ⟨object, c, hthis, hobject, hc, hasks, hsuper⟩ := hs.receivers f home decls _ ho
    obtain ⟨g, hg, -, hholds⟩ := hsuper refs rest rfl
    have hancestor : m.frames.ancestor m.current (k + 1) = .ok g := by
      rw [Frames.ancestor, hops?_succ, hf]
      simp [hg]
    have hget : m.frames.getAt m.current k "this" = .ok (.object object) := by
      rw [Frames.getAt_eq hf, hthis]
    have hinit : method.lexeme = "init" → c.AsksInit := by
      intro heq
      refine hasks (hr.code.asks ⟨.access keyword method, by simp [exprMarks], heq⟩ decls ?_)
      refine List.mem_of_mem_drop (i := k) ?_
      rw [hdrop]
      exact List.mem_cons_self
    refine tracks_get ?_
    rw [hancestor]
    refine tracks_read rfl ?_
    cases hl : m.frames.local? g (superBinding className.lexeme) with
    | none => exact tracks_failAt hs _ _
    | some superclass =>
      -- Any name that is bound there is that of a superclass of `c`, whatever `className` says.
      obtain ⟨s, hmem, rfl⟩ := hholds _ _ hl
      dsimp only
      rw [hget]
      refine tracks_read rfl ?_
      cases s with
      | user parent => exact tracks_userSuperMethod hs hobject hc hmem hinit
      | builtin b =>
        refine tracks_bindSuperMethod hs hobject (fun f hfound => ?_) (fun b' hfound => ?_)
          fun b' hfound hname => ?_
        · split at hfound <;> cases hfound
        · split at hfound
          · cases hfound
            exact Class.mem_builtinAncestors.mpr ⟨c, hc, hmem⟩
          · cases hfound
        · split at hfound
          · cases hfound
            exact ⟨c, hc, hinit hname, Or.inl ⟨.builtin b, hmem, rfl, rfl⟩⟩
          · cases hfound

/-! ## The head of a class -/

/-- A superclass in the head of a class is not the class itself, so it is placed although the name
of the class is not bound yet. -/
theorem Ready.placed_head {uses : List Use} {marks : List Mark}
    (hr : Ready settled w m home stack uses marks) {name : Token} {ref : Reference}
    (hu : headUse name.lexeme (stack.extend [(name.lexeme, true)]) ref ∈ uses) :
    ∃ program, Accepted w.sources program ∧
      Placed w.origins m home program ⟨ref.id, ref.name.lexeme, .head name.lexeme⟩
        (headUse name.lexeme (stack.extend [(name.lexeme, true)]) ref) := by
  obtain ⟨program, ⟨-, distances, hresolve⟩, hmem⟩ := (hr.code.known _ hu).accepted
  have hne : ref.name.lexeme ≠ name.lexeme := ((resolve_ok hresolve).2 _ hmem).1
  refine hr.placed hu (Stack.sites_extend _ _) fun d layer hlayer hlook => ?_
  cases stack with
  -- Globals are not in any scope, and only the innermost one has the name of the class added.
  | nil => exact absurd hlayer (by simp [headUse, Stack.extend])
  | cons scope outer =>
    obtain ⟨site, first⟩ := scope
    cases d with
    | zero =>
      simp only [headUse, Stack.extend, Stack.layers_cons, List.getElem?_cons_zero,
        Option.some.injEq] at hlayer
      subst hlayer
      refine ⟨first, rfl, ?_⟩
      have hcons := lookup_cons_if ref.name.lexeme name.lexeme true first
      rw [if_neg hne] at hcons
      exact hcons.symm.trans hlook
    | succ d => exact ⟨layer, hlayer, hlook⟩

/-- Finding the superclasses can be followed, each by its name in the head. -/
theorem tracks_evaluateSuperclasses {name : Token} {marks : List Mark} (refs : List Reference) :
    ∀ {w : World} {m : Machine} {uses : List Use}, Ready settled w m home stack uses marks →
      refs.map (headUse name.lexeme (stack.extend [(name.lexeme, true)])) ⊆ uses →
      Tracks settled w m (fun _ => Evaluator.evaluateSuperclasses refs) fun w' m' superclasses =>
        superclasses.length = refs.length ∧ ∀ s ∈ superclasses, ValueOk w' m' s.toValue := by
  induction refs with
  | nil => exact fun hr _ => tracks_pure hr.sound ⟨rfl, by simp⟩
  | cons ref refs ih =>
    intro w m uses hr hsub
    have hfirst : Tracks settled w m (fun _ => Evaluator.evaluateSuperclass ref)
        fun w' m' s => ValueOk w' m' s.toValue := by
      obtain ⟨program, ha, hp⟩ := hr.placed_head (hsub List.mem_cons_self)
      refine tracks_bind (tracks_lookUp hr.sound hr.active hp ha) fun w₁ m₁ v h₁ hv => ?_
      refine tracks_bind (tracks_deref h₁.sound hv) fun w₂ m₂ target h₂ htarget => ?_
      split
      · exact tracks_pure h₂.sound htarget
      · exact tracks_pure h₂.sound trivial
      · exact tracks_failAt h₂.sound _ _
    refine tracks_bind hfirst fun w₁ m₁ s h₁ hs => ?_
    refine tracks_bind (ih (hr.after h₁) fun u hu => hsub (List.mem_cons_of_mem _ hu)) ?_
    intro w₂ m₂ rest h₂ ⟨hlength, hrest⟩
    refine tracks_pure h₂.sound ⟨by simp [hlength], fun t ht => ?_⟩
    rcases List.mem_cons.mp ht with rfl | ht
    · exact hs.mono h₂.moves
    · exact hrest t ht

/-! ## The frame around the methods -/

/-- The frame of the superclasses binds nothing else. -/
theorem mem_superBindings {refs : List Reference} {superclasses : List Superclass}
    {b : String × Value} (h : b ∈ Evaluator.superBindings refs superclasses) :
    ∃ s ∈ superclasses, b.2 = s.toValue := by
  unfold Evaluator.superBindings at h
  rcases List.mem_append.mp h with h | h
  · obtain ⟨s, hs, rfl⟩ := Option.map_eq_some_iff.mp (Option.mem_toList.mp h)
    exact ⟨s, List.mem_of_head? hs, rfl⟩
  · obtain ⟨i, hi, rfl⟩ := List.mem_iff_getElem.mp h
    rw [List.getElem_zipWith]
    exact ⟨_, List.getElem_mem _, rfl⟩

/-- Every name of the scope of the superclasses is bound. -/
theorem superLayer_bound {refs : List Reference} {superclasses : List Superclass}
    (hlength : superclasses.length = refs.length) (hne : refs ≠ []) :
    ∀ entry ∈ superLayer refs, entry.1 ∈ (Evaluator.superBindings refs superclasses).map (·.1) := by
  have hnames : (List.zipWith (fun ref s => (superBinding ref.name.lexeme, Superclass.toValue s))
      refs superclasses).map (·.1) = refs.map fun ref => superBinding ref.name.lexeme := by
    rw [List.map_zipWith]
    -- The tails of the two lists have equal lengths again, but they may be empty.
    clear hne
    induction refs generalizing superclasses with
    | nil => rfl
    | cons ref refs ih =>
      cases superclasses with
      | nil => simp at hlength
      | cons s rest => simp [ih (by simpa using hlength)]
  intro entry hentry
  rw [Evaluator.superBindings, List.map_append, List.mem_append, hnames]
  rcases List.mem_cons.mp hentry with rfl | hentry
  · cases superclasses with
    | nil => exact absurd (List.length_eq_zero_iff.mp hlength.symm) hne
    | cons s rest => exact Or.inl (by simp)
  · obtain ⟨ref, href, rfl⟩ := List.mem_map.mp hentry
    exact Or.inr (List.mem_map_of_mem href)

/-- The frame around the methods can be followed, and what it was made for is recorded. -/
theorem tracks_methodFrame (hs : Sound settled w m) (hchain : Chain w m home m.current stack)
    {refs : List Reference} {superclasses : List Superclass}
    (hlength : superclasses.length = refs.length)
    (hvalues : ∀ s ∈ superclasses, ValueOk w m s.toValue) :
    Tracks settled w m (fun _ => Evaluator.methodFrame refs superclasses) fun w' m' closure =>
      Chain w' m' home closure (superStack stack refs) ∧
        (refs ≠ [] → ∀ name v, m'.frames.local? closure name = some v →
          ∃ s ∈ superclasses, v = s.toValue) := by
  unfold Evaluator.methodFrame superStack
  cases refs with
  | nil =>
    obtain rfl := List.length_eq_zero_iff.mp hlength
    exact tracks_get (tracks_pure hs ⟨hchain, fun h => absurd rfl h⟩)
  | cons ref refs =>
    rw [if_neg (by cases superclasses <;> simp at hlength ⊢)]
    refine tracks_get ((tracks_newFrame hs hchain (.superclasses (ref :: refs)) (fun b hb => ?_)
      (superLayer_bound hlength (by simp)) (by simp)).post fun w₁ m₁ f _ hf => ⟨hf.1, ?_⟩)
    · obtain ⟨s, hmem, heq⟩ := mem_superBindings hb
      exact heq ▸ hvalues s hmem
    · exact fun _ name v hv => mem_superBindings (hf.2 name v hv)

/-! ## Declaring a class -/

/-- A method as a class declaration makes it. -/
structure MadeFrom (className : String) (closure : FrameId) (home : ModuleId)
    (decls : List FunctionDecl) (name : String) (f : Function) : Prop where
  decl : f.decl ∈ decls
  closure : f.closure = closure
  home : f.home = home
  initializer : f.isInitializer = (name == "init")
  owner : f.owner? = some className

/-- Making the methods can be followed, and each is made from a declaration. -/
theorem tracks_makeMethods (className : String) (closure : FrameId) (decls all : List FunctionDecl)
    (hall : decls ⊆ all) :
    ∀ {w : World} {m : Machine} {made : List (String × Function)}, Sound settled w m →
      (∀ e ∈ made, MadeFrom className closure home all e.1 e.2) →
      Tracks settled w m (fun _ => Evaluator.makeMethods className closure home decls made)
        fun _ _ methods => (∀ e ∈ methods, MadeFrom className closure home all e.1 e.2) ∧
          made ⊆ methods ∧ ∀ decl ∈ decls, decl ∈ methods.map (·.2.decl) := by
  induction decls with
  | nil => exact fun hs hmade => tracks_pure hs ⟨hmade, List.Subset.refl _, by simp⟩
  | cons decl decls ih =>
    intro w m made hs hmade
    refine tracks_bind (tracks_fresh hs) fun w₁ m₁ id h₁ _ => ?_
    refine (ih (fun d hd => hall (List.mem_cons_of_mem _ hd)) h₁.sound fun e he => ?_).post ?_
    · rcases List.mem_cons.mp he with rfl | he
      · exact ⟨hall List.mem_cons_self, rfl, rfl, rfl, rfl⟩
      · exact hmade e he
    · rintro w₂ m₂ methods _ ⟨hmethods, hsub, hdecls⟩
      refine ⟨hmethods, fun e he => hsub (List.mem_cons_of_mem _ he), fun d hd => ?_⟩
      rcases List.mem_cons.mp hd with rfl | hd
      · exact List.mem_map.mpr ⟨_, hsub List.mem_cons_self, rfl⟩
      · exact hdecls d hd

/-- An ancestor is of the lineage of a superclass. -/
theorem mem_ancestors {d : Class} {superclasses : List Superclass}
    (h : d ∈ Class.ancestors superclasses) :
    ∃ c, Superclass.user c ∈ superclasses ∧ d ∈ c.lineage := by
  induction superclasses with
  | nil => simp [Class.ancestors] at h
  | cons s rest ih =>
    cases s with
    | user c =>
      rcases List.mem_append.mp h with h | h
      · exact ⟨c, List.mem_cons_self, h⟩
      · obtain ⟨c', hmem, hd⟩ := ih h
        exact ⟨c', List.mem_cons_of_mem _ hmem, hd⟩
    | builtin b =>
      obtain ⟨c', hmem, hd⟩ := ih h
      exact ⟨c', List.mem_cons_of_mem _ hmem, hd⟩

/-- The uses of a method are among those of all methods. -/
theorem functionUses_subset {stack : Stack} {decl : FunctionDecl} {decls : List FunctionDecl}
    (h : decl ∈ decls) : functionUses stack decl ⊆ methodsUses stack decls := by
  induction decls with
  | nil => simp at h
  | cons d decls ih =>
    rcases List.mem_cons.mp h with rfl | h
    · exact List.subset_append_left _ _
    · exact fun u hu => List.mem_append_right _ (ih h hu)

theorem functionMarks_subset {decl : FunctionDecl} {decls : List FunctionDecl} (h : decl ∈ decls) :
    functionMarks decl ⊆ methodsMarks decls := by
  rw [Parser.methodsMarks_eq]
  exact fun k hk => List.mem_flatMap_of_mem h hk

/-- The code of the methods of a class, inside its two scopes. -/
theorem CodeOk.method {uses : List Use} {marks : List Mark}
    (h : CodeOk w m home stack uses marks) {refs : List Reference} {decls : List FunctionDecl}
    (huses : methodsUses (classStack stack refs decls) decls ⊆ uses)
    (hmarks : methodsMarks decls ⊆ marks) {decl : FunctionDecl} (hdecl : decl ∈ decls) :
    CodeOk w m home (classStack stack refs decls) (functionUses (classStack stack refs decls) decl)
      (functionMarks decl) where
  shape := h.shape.classStack refs decls
  known := fun u hu => h.known u (huses (functionUses_subset hdecl hu))
  proper := fun k hk => h.proper k (hmarks (functionMarks_subset hdecl hk))
  asks := fun ⟨k, hk, hask⟩ decls' hmem => by
    have houter := h.asks ⟨k, hmarks (functionMarks_subset hdecl hk), hask⟩ decls'
    unfold classStack superStack at hmem
    rcases List.mem_cons.mp hmem with heq | hmem
    · cases heq
      exact ⟨decl, hdecl, k, hk, hask⟩
    · split at hmem
      · exact houter hmem
      · rcases List.mem_cons.mp hmem with heq | hmem
        · cases heq
        · exact houter hmem

/-- A class whose methods were made in the frame of its superclasses is as it should be. -/
theorem classOk_of_made {id : Identity} {className : String} {closure : FrameId}
    {superclasses : List Superclass} {methods : List (String × Function)}
    {refs : List Reference} {decls : List FunctionDecl}
    (hsupers : ∀ s ∈ superclasses, ValueOk w m s.toValue)
    (hmade : ∀ e ∈ methods, MadeFrom className closure home decls e.1 e.2)
    (hdecls : ∀ decl ∈ decls, decl ∈ methods.map (·.2.decl))
    (hchain : Chain w m home closure (superStack stack refs))
    (hholds : refs ≠ [] → ∀ name v, m.frames.local? closure name = some v →
      ∃ s ∈ superclasses, v = s.toValue)
    (hopen : stack.Open)
    (hcode : ∀ decl ∈ decls, CodeOk w m home (classStack stack refs decls)
      (functionUses (classStack stack refs decls) decl) (functionMarks decl)) :
    ClassOk w m (.mk id className superclasses methods) := by
  intro d hd e he
  rcases List.mem_cons.mp hd with rfl | hd
  · obtain ⟨hdecl, hclosure, hhome, hinit, howner⟩ := hmade e he
    refine ⟨howner, hinit, superStack stack refs, decls, ?_, ?_, ?_, ?_⟩
    · rw [hclosure, hhome]
      exact hchain
    · rw [hhome]
      exact hcode e.2.decl hdecl
    -- A method that is declared twice is made once more, so none of the declarations is lost.
    · rintro ⟨decl, hmem, k, hk, hask⟩
      exact ⟨decl, hdecls decl hmem, k, hk, hask⟩
    · intro refs' rest hsites
      rw [hclosure]
      -- A scope of superclasses can only be the one of this class: the one around is open.
      have hne : refs ≠ [] := by
        rintro rfl
        have := hopen (.superclasses refs') (by
          rw [show stack.sites = .superclasses refs' :: rest from hsites]
          rfl)
        cases this
      exact hholds hne
  -- The classes above were as they should be before, as values of their own.
  · obtain ⟨c, hc, hdc⟩ := mem_ancestors hd
    have hclass : ClassOk w m c := hsupers _ hc
    exact hclass d hdc e he

/-- A name that the frame binds is assigned to there. -/
theorem target_of_binds {f : FrameId} {name : Token} (h : m.frames.binds f name.lexeme = true) :
    m.frames.target f name = .ok f := by
  rw [Frames.target, Frames.holder?, if_pos h]

/-- The declaration of a class can be followed. -/
theorem tracks_declareClass {name : Token} {refs : List Reference} {decls : List FunctionDecl}
    (hr : Ready settled w m home stack (stmtUses stack (.classDecl name refs decls))
      (stmtMarks (.classDecl name refs decls))) :
    Tracks settled w m (fun _ => Evaluator.declareClass name refs decls) fun w' m' _ =>
      Chain w' m' home m'.current (stack.extend [(name.lexeme, true)]) := by
  refine tracks_bind (tracks_evaluateSuperclasses refs hr (List.subset_append_left _ _)) ?_
  intro w₁ m₁ superclasses h₁ ⟨hlength, hsupers⟩
  have hr₁ := hr.after h₁
  -- The name is bound to null first, so that the frame of the methods stands under a scope with it.
  refine tracks_bind (tracks_define hr₁.sound hr₁.not_sealed (v := .null) trivial) ?_
  rintro w₂ m₂ _ h₂ ⟨rfl, rfl⟩
  have hr₂ := hr₁.after h₂
  have hbound := binds_withBinding hr₁.sound (hr₁.chain.origin hr₁.sound) name.lexeme .null
  have hplain : ∀ entry ∈ [(name.lexeme, true)], Plain entry.1 := by
    intro entry hentry
    rw [List.mem_singleton.mp hentry]
    exact hr.code.proper (.name name) (by simp [stmtMarks])
  have hr₃ := hr₂.extend (hr₂.chain.extend fun entry hentry _ => by
    rw [List.mem_singleton.mp hentry]
    exact hbound) hplain
  refine tracks_bind (tracks_methodFrame hr₃.sound hr₃.chain hlength
    fun s hs => (hsupers s hs).mono h₂.moves) ?_
  intro w₃ m₃ closure h₃ ⟨hchain, hholds⟩
  have hactive : m₃.active? = some home := (hr₃.after h₃).active
  refine tracks_read (Evaluator.activeModule_eq hactive) ?_
  refine tracks_bind (tracks_makeMethods name.lexeme closure decls decls (List.Subset.refl _)
    h₃.sound (by simp)) ?_
  rintro w₄ m₄ methods h₄ ⟨hmade, -, hdecls⟩
  refine tracks_bind (tracks_fresh h₄.sound) fun w₅ m₅ id h₅ _ => ?_
  have hr₄ := hr₃.after h₃
  -- Nothing that happens after the frame was made changes what the methods find behind it.
  have hclass : ClassOk w₃ m₃ (.mk id name.lexeme superclasses methods) := by
    refine classOk_of_made (fun s hs => ((hsupers s hs).mono h₂.moves).mono h₃.moves) hmade hdecls
      hchain hholds hr₄.unsealed fun decl hdecl => hr₄.code.method ?_ ?_ hdecl
    · exact List.subset_append_right _ _
    · exact List.subset_append_right _ _
  have h₃₅ : Advances settled m₃.SamePlace w₃ m₃ w₅ m₅ :=
    ⟨h₄.moves.trans h₅.moves, h₅.sound, h₄.kept.trans h₅.kept⟩
  have hr₅ := hr₄.after h₃₅
  have hcurrent : m₅.current = m₁.current := (h₃.kept.trans h₃₅.kept).2
  have hbinds : m₅.frames.binds m₅.current name.lexeme = true := by
    rw [hcurrent]
    exact (h₃.moves.trans h₃₅.moves).binds _ _ hbound
  -- The class then takes the place of null in the current frame, which is where its name is found.
  refine tracks_get ((tracks_write h₅.sound (fun f hf => ?_) fun e he => ?_).post ?_)
  · rw [target_of_binds hbinds] at hf
    cases hf
    have hvalue : ValueOk w₅ m₅ (.cls (.mk id name.lexeme superclasses methods)) :=
      hclass.mono h₃₅.moves
    exact ⟨hr₅.not_sealed, hvalue.withBinding hr₅.not_sealed _⟩
  · rw [target_of_binds hbinds] at he
    cases he
  · intro w₆ m₆ _ h₆ _
    exact (hr₅.after h₆).chain

end

end ScriptEngine
