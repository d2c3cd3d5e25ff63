import ScriptEngine.Proofs.Evaluator.Calling

/-!
# Making instances

Calling a class makes an instance and initializes it. What is left of the slots then is `Made`. A
class with an initializer of its own gives up unless all slots are initialized. Without one, the
superclasses are initialized one by one, the last first; a slot is opened and closed by the engine
itself, so between the two the instance must not count as settled, and while the initializer of a
superclass runs it must (`Tracks.resettle`). A slot stays closed unless a later initializer opens
it again.
-/

namespace ScriptEngine

open Scope hiding bind

/-- Initializing this superclass runs code of the program, which can open the slot with a name. -/
def Class.OpensBy (c : Class) (s : Superclass) (name : String) : Prop :=
  (∃ parent, s = .user parent ∧ parent.ownInit?.isSome = true) ∧ c.Reopens name

section

variable {settled : Nat} {w w' : World} {m m' : Machine} {ev : Observer → Evaluator}

/-- The check of the number of arguments can be followed. -/
theorem tracks_checkArity (hs : Sound settled w m) (arity got : Nat) (paren : Token) :
    Tracks settled w m (fun _ => Evaluator.checkArity arity got paren) fun _ _ _ => True := by
  unfold Evaluator.checkArity
  split
  · exact tracks_failAt hs _ _
  · exact tracks_pure hs trivial

/-- An initializer that is called leaves the slot of its class initialized. -/
theorem tracks_callInitializer (h : Evaluator.Tracks ev) (hs : Sound settled w m) {id : ObjectId}
    (hid : id < m.store.heap.objects.size) {c : Class} {f : Function} (hf : FunctionOk w m f)
    (hbound : BoundTo w m id c "init" f) {args : List Value} (hargs : ∀ v ∈ args, ValueOk w m v) :
    Tracks settled w m (fun o => (ev o).callFunction f args) fun _ m' _ =>
      (m'.store.heap.object id).Done c.name := by
  refine tracks_callFunction_then h hs hf hargs fun w₁ m₁ v h₁ _ => ?_
  have hbound₁ := hbound.mono h₁.moves
  rw [hbound₁.initializer, if_pos (by decide)]
  refine tracks_get ?_
  -- The frame behind the method still holds the instance, since it is sealed.
  rw [hbound₁.this, hbound₁.owner]
  refine tracks_bind (tracks_setInitialized h₁.sound id c.name) ?_
  rintro w₂ m₂ _ h₂ ⟨rfl, rfl⟩
  refine tracks_pure h₂.sound ?_
  show (Heap.object _ id).Done c.name
  rw [Machine.withHeap, Heap.object_modifyObject,
    if_pos ⟨rfl, Nat.lt_of_lt_of_le hid h₁.moves.heap.objects⟩]
  exact Instance.done_setStatus _ _

/-- An instance whose slot is set is found with that slot. -/
theorem object_setStatus {id : ObjectId} (hid : id < m.store.heap.objects.size) (name : String)
    (status : InitStatus) :
    (m.withHeap (m.store.heap.modifyObject id fun i =>
      i.setStatus name status)).store.heap.object id =
        (m.store.heap.object id).setStatus name status := by
  rw [Machine.withHeap, Heap.object_modifyObject, if_pos ⟨rfl, hid⟩]

/-- Opening a slot of an instance that is being made. -/
theorem tracks_setInitializing (hs : Sound settled w m) {id : ObjectId} (hnew : settled ≤ id)
    (name : String) :
    Tracks settled w m (fun _ => Evaluator.setStatus id name .initializing) fun w' m' _ =>
      w' = w ∧ m' = m.withHeap
        (m.store.heap.modifyObject id fun i => i.setStatus name .initializing) :=
  tracks_modifyHeap hs
    (Heap.grows_modifyObject (Instance.keeps_setStatus _ _ _
      (Or.inr fun hlt => absurd hlt (Nat.not_lt_of_le hnew))))
    (hs.heap.setStatus id name .initializing)

/-- An initializer that a class declares is one of its methods. -/
theorem mem_methods_of_ownInit? {c : Class} {f : Function} (h : c.ownInit? = some f) :
    ("init", f) ∈ c.methods :=
  mem_of_lookup h

/-- Running the initializer of a superclass on an instance. -/
theorem tracks_runInit (h : Evaluator.Tracks ev) (hs : Sound settled w m) {id : ObjectId}
    (hid : id < m.store.heap.objects.size) {parent : Class}
    (hparent : parent ∈ (m.store.heap.object id).cls.lineage) {init : Function}
    (hinit : parent.ownInit? = some init) {args : List Value}
    (hargs : ∀ v ∈ args, ValueOk w m v) (paren : Token) :
    Tracks settled w m (fun o => do
        let bound ← Run.bindMethod init (.object id)
        Evaluator.checkArity bound.arity args.length paren
        let _ ← (ev o).callFunction bound args
        pure PUnit.unit) fun _ m' _ => (m'.store.heap.object id).Done parent.name := by
  refine tracks_bind (tracks_bindMethod hs hid hparent (mem_methods_of_ownInit? hinit)) ?_
  intro w₁ m₁ bound h₁ hbound
  refine tracks_bind (tracks_checkArity h₁.sound _ _ _) fun w₂ m₂ _ h₂ _ => ?_
  have h₁₂ := h₁.moves.trans h₂.moves
  refine tracks_bind (tracks_callInitializer h h₂.sound
    (Nat.lt_of_lt_of_le hid h₁₂.heap.objects) (hbound.1.mono h₂.moves) (hbound.2.mono h₂.moves)
    fun v hv => (hargs v hv).mono h₁₂) fun w₃ m₃ _ h₃ hdone => ?_
  exact tracks_pure h₃.sound hdone

/-- Initializing one superclass closes its slot and keeps the others. -/
theorem tracks_initSuperclass (h : Evaluator.Tracks ev) (hs : Sound settled w m) {id : ObjectId}
    (hid : id < m.store.heap.objects.size) (hnew : settled ≤ id) {c : Class}
    (hcls : (m.store.heap.object id).cls = c) {s : Superclass} (hmem : s ∈ c.superclasses)
    {args : List Value} (hargs : ∀ v ∈ args, ValueOk w m v) (paren : Token) :
    Tracks settled w m (fun o => (ev o).initSuperclass id args paren s) fun _ m' _ =>
      (m.store.heap.object id).Keeps (c.OpensBy s) (m'.store.heap.object id) ∧
        (m'.store.heap.object id).Done s.name := by
  -- A slot that is closed at once, whatever it was before.
  have hclose : ∀ {m : Machine}, Sound settled w m → id < m.store.heap.objects.size →
      ∀ name, Tracks settled w m (fun _ => Evaluator.setStatus id name .initialized)
        fun _ m' _ => (m.store.heap.object id).Keeps (c.OpensBy s) (m'.store.heap.object id) ∧
          (m'.store.heap.object id).Done name := by
    intro m hs hid name
    refine (tracks_setInitialized hs id name).post ?_
    rintro _ m' _ _ ⟨-, rfl⟩
    rw [object_setStatus hid]
    exact ⟨Instance.keeps_setStatus _ _ _ (Or.inl rfl), Instance.done_setStatus _ _⟩
  unfold Evaluator.initSuperclass
  cases hown : s.hasOwnInit with
  -- A superclass without an initializer of its own is taken to be initialized.
  | false => exact hclose hs hid s.name
  | true =>
    refine tracks_bind (tracks_setInitializing hs hnew s.name) ?_
    rintro w₁ m₁ _ h₁ ⟨rfl, rfl⟩
    have hid₁ := Nat.lt_of_lt_of_le hid h₁.moves.heap.objects
    have hobject := object_setStatus hid s.name .initializing
    cases s with
    | builtin b =>
      refine (hclose h₁.sound hid₁ b.name).post fun w₂ m₂ _ _ hpost => ?_
      rw [hobject] at hpost
      -- The slot was opened for a moment, which does not show once it is closed.
      exact ⟨hpost.1.through hpost.2, hpost.2⟩
    | user parent =>
      obtain ⟨init, hinit⟩ := Option.isSome_iff_exists.mp hown
      dsimp only
      rw [hinit]
      -- While the initializer runs, the instance counts as settled.
      have hparent : parent ∈ ((m.store.heap.object id).setStatus
          (Superclass.user parent).name .initializing).cls.lineage := by
        refine Class.lineage_subset_of_superclass ?_ (Class.mem_lineage_self parent)
        exact hcls ▸ hmem
      rw [← hobject] at hparent
      have hs₁ : Sound _ w₁ _ := { h₁.sound with bounded := Nat.le_refl _ }
      refine ((tracks_runInit h hs₁ hid₁ hparent hinit
        (fun v hv => (hargs v hv).mono h₁.moves) paren).resettle h₁.sound.bounded).post ?_
      intro w₂ m₂ _ h₂ hpost
      have hkeeps := hpost.1.instances id hid₁
      rw [hobject] at hkeeps
      refine ⟨Instance.Keeps.through (hkeeps.weaken fun name hopen => ?_) hpost.2, hpost.2⟩
      refine ⟨⟨parent, rfl, by rw [hinit]; rfl⟩, ?_⟩
      have := hopen hid₁
      rwa [show ((m.store.heap.object id).setStatus (Superclass.user parent).name
        .initializing).cls = c from hcls] at this

/-- Superclasses that are initialized in order: the slot of each is closed unless a later one
opens it again. -/
theorem tracks_initSuperclasses (h : Evaluator.Tracks ev) {id : ObjectId} (hnew : settled ≤ id)
    {c : Class} {args : List Value} (paren : Token) (ss : List Superclass) :
    ∀ {w : World} {m : Machine}, Sound settled w m → id < m.store.heap.objects.size →
      (m.store.heap.object id).cls = c → (∀ s ∈ ss, s ∈ c.superclasses) →
      (∀ v ∈ args, ValueOk w m v) →
      Tracks settled w m (fun o => (ev o).initSuperclasses id args paren ss) fun _ m' _ =>
        (m.store.heap.object id).Keeps (fun name => ∃ s ∈ ss, c.OpensBy s name)
          (m'.store.heap.object id) ∧
        ∀ before s after, ss = before ++ s :: after → (∀ t ∈ after, ¬ c.OpensBy t s.name) →
          (m'.store.heap.object id).Done s.name := by
  induction ss with
  | nil =>
    intro w m hs _ _ _ _
    exact tracks_pure hs ⟨.refl _ _, fun before s after heq => absurd heq (by simp)⟩
  | cons s rest ih =>
    intro w m hs hid hcls hmem hargs
    refine tracks_bind (tracks_initSuperclass h hs hid hnew hcls
      (hmem s List.mem_cons_self) hargs paren) fun w₁ m₁ _ h₁ ⟨hkeeps, hdone⟩ => ?_
    refine (ih h₁.sound (Nat.lt_of_lt_of_le hid h₁.moves.heap.objects) (hkeeps.cls.trans hcls)
      (fun t ht => hmem t (List.mem_cons_of_mem s ht))
      (fun v hv => (hargs v hv).mono h₁.moves)).post fun w₂ m₂ _ _ ⟨hkeeps', hdone'⟩ => ⟨?_, ?_⟩
    · refine (hkeeps.weaken fun name hopen => ?_).trans (hkeeps'.weaken fun name hopen => ?_)
      · exact ⟨s, List.mem_cons_self, hopen⟩
      · obtain ⟨t, ht, hopen⟩ := hopen
        exact ⟨t, List.mem_cons_of_mem s ht, hopen⟩
    · intro before t after heq hlater
      cases before with
      | nil =>
        obtain ⟨rfl, rfl⟩ := List.cons.inj heq
        refine hkeeps'.done hdone ?_
        rintro ⟨u, hu, hopen⟩
        exact hlater u hu hopen
      -- The superclass comes later in the order, where the induction hypothesis speaks of it.
      | cons u before => exact hdone' before t after (List.cons.inj heq).2 hlater

/-! ## Instances as they are made -/

/-- An instance that a call of its class has made. -/
structure Made (c : Class) (i : Instance) : Prop where
  cls : i.cls = c
  names : i.statuses.map (·.className) = c.name :: c.superclasses.map (·.name)
  /-- A class with an initializer of its own checks that nothing is missing. -/
  checked : c.ownInit?.isSome = true → ∀ slot ∈ i.statuses, slot.status = .initialized
  /-- Otherwise nothing ever finds a slot whose name an earlier slot has. -/
  hidden : c.ownInit? = none → ∀ n slot, i.statuses[n]? = some slot →
    ¬ Instance.First i.statuses n → slot.status = .notInitialized
  /-- The slot of the class itself is closed from the start. -/
  self : c.ownInit? = none → (∀ s ∈ c.superclasses, ¬ c.OpensBy s c.name) → i.Done c.name
  /-- The slot of a superclass is closed unless one that is initialized later opens it. -/
  inherited : c.ownInit? = none → ∀ before s after, c.superclasses = before ++ s :: after →
    (∀ t ∈ before, ¬ c.OpensBy t s.name) → i.Done s.name

/-- A new instance has a slot for its class and one for each superclass, in order. -/
theorem initialStatuses_names (c : Class) :
    (Instance.initialStatuses c).map (·.className) = c.name :: c.superclasses.map (·.name) := by
  simp [Instance.initialStatuses, Function.comp_def]

/-- In a new instance only the class itself counts as initialized. -/
theorem initialStatuses_get {c : Class} {n : Nat} {a : StatusSlot}
    (h : (Instance.initialStatuses c)[n]? = some a) :
    n = 0 ∧ a = ⟨c.name, .initialized⟩ ∨ a.status = .notInitialized := by
  cases n with
  | zero => exact Or.inl ⟨rfl, (Option.some.inj h).symm⟩
  | succ n =>
    obtain ⟨s, -, rfl⟩ := Option.map_eq_some_iff.mp (List.getElem?_map ▸ h)
    exact Or.inr rfl

/-- An instance of a class without an initializer is made once its superclasses are initialized. -/
theorem made_of_inherited {c : Class} {i i' : Instance} (hown : c.ownInit? = none)
    (hcls : i.cls = c) (hstatuses : i.statuses = Instance.initialStatuses c)
    (hkeeps : i.Keeps (fun name => ∃ s ∈ c.superclasses.reverse, c.OpensBy s name) i')
    (hdone : ∀ before s after, c.superclasses.reverse = before ++ s :: after →
      (∀ t ∈ after, ¬ c.OpensBy t s.name) → i'.Done s.name) : Made c i' where
  cls := hkeeps.cls.trans hcls
  names := by rw [hkeeps.names, hstatuses, initialStatuses_names]
  checked := fun h => by simp [hown] at h
  hidden := fun _ n b hb hfirst => by
    obtain ⟨a, ha⟩ := hkeeps.exists_slot hb
    rw [Instance.first_congr hkeeps.names] at hfirst
    -- Only first slots are ever changed, so this one is as it was in the new instance.
    rcases hkeeps.slots n a b ha hb with rfl | ⟨hfirst', -⟩
    · rw [hstatuses] at ha
      rcases initialStatuses_get ha with ⟨rfl, -⟩ | hnot
      · exact absurd (fun k hk => absurd hk (Nat.not_lt_zero k)) hfirst
      · exact hnot
    · exact absurd hfirst' hfirst
  self := fun _ hopen => by
    refine hkeeps.done (fun n a ha hname hfirst => ?_) ?_
    · rw [hstatuses] at ha hfirst
      rcases initialStatuses_get ha with ⟨-, rfl⟩ | -
      · rfl
      · -- The first slot has the name of the class, so no later one is first with it.
        cases n with
        | zero => exact congrArg StatusSlot.status (Option.some.inj ha).symm
        | succ n =>
          refine absurd ?_ (hfirst 0 (Nat.succ_pos n))
          rw [ha, Option.map_some, hname]
          rfl
    · rintro ⟨s, hs, hopens⟩
      exact hopen s (List.mem_reverse.mp hs) hopens
  inherited := fun _ before s after heq hearlier => by
    -- Superclasses are initialized from the last to the first: what stands before comes later.
    refine hdone after.reverse s before.reverse ?_ fun t ht => hearlier t (List.mem_reverse.mp ht)
    rw [heq, List.reverse_append, List.reverse_cons, List.append_assoc]
    rfl

/-- Where no slot is found missing all are initialized. -/
theorem all_initialized {i : Instance} (h : i.firstUninitialized? = none) :
    ∀ slot ∈ i.statuses, slot.status = .initialized := by
  rw [Instance.firstUninitialized?, Option.map_eq_none_iff, List.find?_eq_none] at h
  intro slot hslot
  simpa using h slot hslot

/-- Calling a class gives a new instance, made as it should be. -/
theorem tracks_instantiate (h : Evaluator.Tracks ev) (hs : Sound settled w m) {c : Class}
    (hc : ClassOk w m c) {args : List Value} (hargs : ∀ v ∈ args, ValueOk w m v)
    (paren : Token) :
    Tracks settled w m (fun o => (ev o).instantiate c args paren) fun w' m' v =>
      ValueOk w' m' v ∧ ∃ id, v = .object id ∧ Made c (m'.store.heap.object id) := by
  refine tracks_bind (tracks_action hs (Builtin.keeps_newInstance hs.heap hc)) ?_
  rintro w₁ m₁ id h₁ ⟨rfl, hge, hid, hcls, hstatuses⟩
  have hargs₁ : ∀ v ∈ args, ValueOk w₁ m₁ v := fun v hv => (hargs v hv).mono h₁.moves
  have hnew : settled ≤ id := Nat.le_trans hs.bounded hge
  cases hown : c.ownInit? with
  | some init =>
    dsimp only
    have hlineage : c ∈ (m₁.store.heap.object id).cls.lineage := hcls ▸ Class.mem_lineage_self c
    refine tracks_bind (tracks_bindMethod h₁.sound hid hlineage (mem_methods_of_ownInit? hown)) ?_
    intro w₂ m₂ bound h₂ hbound
    refine tracks_bind (tracks_callFunction h h₂.sound hbound.1
      fun v hv => (hargs₁ v hv).mono h₂.moves) fun w₃ m₃ _ h₃ _ => ?_
    have hmoves := h₂.moves.trans h₃.moves
    refine tracks_heap ?_
    split
    · exact tracks_failAt h₃.sound _ _
    -- Whatever the initializer has done, the check that follows it has found no open slot.
    · next hnone =>
      have hkeeps := hmoves.heap.instances id hid
      refine tracks_pure h₃.sound ⟨Nat.lt_of_lt_of_le hid hmoves.heap.objects, id, rfl, ?_⟩
      refine ⟨hkeeps.cls.trans hcls, ?_, fun _ => all_initialized hnone, ?_, ?_, ?_⟩
      · rw [hkeeps.names, hstatuses, initialStatuses_names]
      · exact fun hnot => by simp [hown] at hnot
      · exact fun hnot => by simp [hown] at hnot
      · exact fun hnot => by simp [hown] at hnot
  | none =>
    dsimp only
    refine tracks_bind (tracks_initSuperclasses h hnew paren c.superclasses.reverse h₁.sound hid
      hcls (fun s hmem => List.mem_reverse.mp hmem) hargs₁) ?_
    rintro w₂ m₂ _ h₂ ⟨hkeeps, hdone⟩
    refine tracks_pure h₂.sound ⟨Nat.lt_of_lt_of_le hid h₂.moves.heap.objects, id, rfl, ?_⟩
    exact made_of_inherited hown hcls hstatuses hkeeps hdone

/-! ## Calling values -/

/-- The same with the check of the number of arguments. -/
theorem tracks_callClass (h : Evaluator.Tracks ev) (hs : Sound settled w m) {c : Class}
    (hc : ClassOk w m c) {args : List Value} (hargs : ∀ v ∈ args, ValueOk w m v)
    (paren : Token) :
    Tracks settled w m (fun o => (ev o).callTarget (.cls c) args paren) fun w' m' v =>
      ValueOk w' m' v ∧ ∃ id, v = .object id ∧ Made c (m'.store.heap.object id) := by
  refine tracks_bind (tracks_checkArity hs _ _ _) fun w₁ m₁ _ h₁ _ => ?_
  exact tracks_instantiate h h₁.sound (hc.mono h₁.moves) (fun v hv => (hargs v hv).mono h₁.moves)
    paren

/-- A call of a sound value can be followed. -/
theorem tracks_callTarget (h : Evaluator.Tracks ev) (hs : Sound settled w m) {callee : Value}
    (hv : ValueOk w m callee) {args : List Value} (hargs : ∀ v ∈ args, ValueOk w m v)
    (paren : Token) :
    Tracks settled w m (fun o => (ev o).callTarget callee args paren) ValueOk := by
  have hafter : ∀ {w₁ m₁}, Advances settled m.SamePlace w m w₁ m₁ → ∀ v ∈ args, ValueOk w₁ m₁ v :=
    fun h₁ v hv => (hargs v hv).mono h₁.moves
  cases callee with
  | function f =>
    refine tracks_bind (tracks_checkArity hs _ _ _) fun w₁ m₁ _ h₁ _ => ?_
    exact tracks_callFunction h h₁.sound (FunctionOk.mono hv h₁.moves) (hafter h₁)
  | native f =>
    refine tracks_bind (tracks_checkArity hs _ _ _) fun w₁ m₁ _ h₁ _ => ?_
    exact tracks_action_value h₁.sound (Builtin.keeps_callNative h₁.sound.heap
      (NativeAction.Fits.mono hv h₁.moves.heap fun _ hc => hc.mono h₁.moves) (hafter h₁))
  | cls c => exact (tracks_callClass h hs hv hargs paren).post fun _ _ _ _ hmade => hmade.1
  | builtinClass c =>
    refine tracks_bind (tracks_checkArity hs _ _ _) fun w₁ m₁ _ h₁ _ => ?_
    refine tracks_bind (tracks_action h₁.sound
      (Builtin.keeps_construct h₁.sound.heap c (hafter h₁))) fun w₂ m₂ d h₂ hd => ?_
    exact tracks_pure h₂.sound hd.2.1
  | _ => exact tracks_failAt hs _ _

theorem tracks_callValue (h : Evaluator.Tracks ev) (hs : Sound settled w m) {callee : Value}
    (hv : ValueOk w m callee) {args : List Value} (hargs : ∀ v ∈ args, ValueOk w m v)
    (paren : Token) :
    Tracks settled w m (fun o => (ev o).callValue callee args paren) ValueOk := by
  cases callee with
  | imported id =>
    refine tracks_bind (tracks_deref hs hv) fun w₁ m₁ target h₁ htarget => ?_
    exact tracks_callTarget h h₁.sound htarget (fun v hv => (hargs v hv).mono h₁.moves) paren
  | _ => exact tracks_callTarget h hs hv hargs paren

theorem tracks_callMethod (h : Evaluator.Tracks ev) (hs : Sound settled w m) {receiver : Value}
    (hv : ValueOk w m receiver) (method : String) {args : List Value}
    (hargs : ∀ v ∈ args, ValueOk w m v) (token : Token) :
    Tracks settled w m (fun o => (ev o).callMethod receiver method args token) ValueOk := by
  cases receiver with
  | datum d =>
    exact tracks_action_value hs (Builtin.keeps_callMethod hs.heap hv method hargs)
  | object id =>
    refine tracks_bind (tracks_getProperty hs hv _) fun w₁ m₁ f h₁ hf => ?_
    exact tracks_callValue h h₁.sound hf (fun v hv => (hargs v hv).mono h₁.moves) token
  | _ => exact tracks_failAt hs _ _

/-! ## Operators -/

/-- Operators on sound values can be followed. -/
theorem tracks_binaryOperation (h : Evaluator.Tracks ev) (hs : Sound settled w m)
    {left right : Value} (hl : ValueOk w m left) (hr : ValueOk w m right) (operator : Token) :
    Tracks settled w m (fun o => (ev o).binaryOperation left operator right) ValueOk := by
  unfold Evaluator.binaryOperation
  split
  · exact tracks_failAt hs _ _
  · refine tracks_heap ?_
    split
    · exact tracks_callMethod h hs hl _ (by simpa using hr) operator
    · refine tracks_heap ?_
      split
      -- The right operand is asked in its turn, and the left one is then the argument.
      · exact tracks_callMethod h hs hr _ (by simpa using hl) operator
      · split
        · unfold Evaluator.nullOperation
          split
          · exact tracks_pure hs trivial
          · exact tracks_pure hs trivial
          · exact tracks_failAt hs _ _
        · exact tracks_failAt hs _ _

theorem tracks_unaryOperation (h : Evaluator.Tracks ev) (hs : Sound settled w m) {operand : Value}
    (hv : ValueOk w m operand) (operator : Token) :
    Tracks settled w m (fun o => (ev o).unaryOperation operator operand) ValueOk := by
  unfold Evaluator.unaryOperation
  split
  · exact tracks_failAt hs _ _
  · refine tracks_heap ?_
    split
    · exact tracks_callMethod h hs hv _ (by simp) operator
    · exact tracks_failAt hs _ _

theorem tracks_indexGet (h : Evaluator.Tracks ev) (hs : Sound settled w m) {object index : Value}
    (ho : ValueOk w m object) (hi : ValueOk w m index) (bracket : Token) :
    Tracks settled w m (fun o => (ev o).indexGet object index bracket) ValueOk := by
  unfold Evaluator.indexGet
  split
  · exact tracks_failAt_bind hs _ _ _
  · refine tracks_heap ?_
    split
    · exact tracks_failAt_bind hs _ _ _
    · exact tracks_callMethod h hs ho _ (by simpa using hi) bracket

theorem tracks_indexSet (h : Evaluator.Tracks ev) (hs : Sound settled w m)
    {object index value : Value} (ho : ValueOk w m object) (hi : ValueOk w m index)
    (hv : ValueOk w m value) (equals : Token) :
    Tracks settled w m (fun o => (ev o).indexSet object index value equals) fun _ _ _ => True := by
  unfold Evaluator.indexSet
  split
  · exact tracks_failAt_bind hs _ _ _
  · refine tracks_heap ?_
    split
    · exact tracks_failAt_bind hs _ _ _
    · refine tracks_bind (tracks_callMethod h hs ho _ (by simpa using And.intro hi hv) equals) ?_
      exact fun _ _ _ h₁ _ => tracks_pure h₁.sound trivial

end

end ScriptEngine
