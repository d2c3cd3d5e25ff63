import ScriptEngine.Proofs.Evaluator.Answer
import ScriptEngine.Proofs.Heap.Objects
import ScriptEngine.Proofs.Session.Instance
import ScriptEngine.Proofs.Session.Receiver

/-!
# Backing instances in sessions

In every session, an instance has one backing instance for each built-in class above its class and
no other, and each is of the class that it is filed under. So wherever a method is found at a
built-in class there is something that serves it: reading the property, applying an operator and
asking a superclass for it all come to a method of that backing instance.

There is one exception. A superclass that is asked for `init` gives the initializer of the instance
instead, which puts a new instance of the built-in class in the place of the one that backs it.
-/

namespace ScriptEngine

open Scope hiding bind

/-! ## What serves a method -/

/-- An instance has one backing instance for each built-in class above its class and none besides,
each of the class that it is filed under. -/
structure Instance.BackedExactly (i : Instance) : Prop where
  once : i.backings.Nodup
  exact : ∀ b, b ∈ i.backings ↔ b ∈ i.cls.builtinAncestors
  kinds : ∀ n ∈ i.natives, n.2.cls = n.1

/-- Every initializer that a sound machine knows replaces a backing instance that there is. -/
theorem Sound.backed {settled : Nat} {w : World} {m : Machine} (hs : Sound settled w m)
    (id : ObjectId) : (m.store.heap.object id).BackedExactly := by
  have hbacked := hs.heap.backed id
  refine ⟨hbacked.once, fun b => ⟨fun hb => ?_, hbacked.above b⟩, hbacked.kinds⟩
  rcases hbacked.only b hb with habove | ⟨f, haction, hf⟩
  · exact habove
  · exact (hf id b haction).2

/-- Wherever the class of an instance has a method from a built-in class, the backing instance for
that class serves it: without a field of that name, the property is its method, and an operator or
index form calls that. -/
def Machine.Serves (m : Machine) (id : ObjectId) : Prop :=
  ∀ method b, (m.store.heap.object id).cls.findMethod? method = some (.builtin b) →
    ∃ d arity, (m.store.heap.object id).native? b = some d ∧ d.cls = b ∧
      b.methodArity? method = some arity ∧
      ((m.store.heap.object id).field? method = none →
        (∀ name : Token, name.lexeme = method →
          Run.getProperty (.object id) name m = .ok (m.backingMethod d method arity) m.numbered) ∧
        ∀ (op : Operation) (ev : Evaluator), op.Dispatches m.store.heap (.object id) method →
          op.run ev (.object id) m = (ev.callTarget (m.backingMethod d method arity) op.args
            op.token >>= fun v => pure (op.result v)) m.numbered)

/-- In a sound machine the backings of an instance serve its methods. -/
theorem Sound.serves {settled : Nat} {w : World} {m : Machine} (hs : Sound settled w m)
    (id : ObjectId) : m.Serves id := by
  intro method b hfound
  obtain ⟨d, arity, hd, hcls, harity⟩ := (hs.heap.backed id).served hfound
  refine ⟨d, arity, hd, hcls, harity, fun hfield => ⟨?_, fun op ev hop => ?_⟩⟩
  · rintro name rfl
    exact getProperty_answers hfield (.builtin hfound hd hcls harity)
  · exact Operation.run_answers ev hop hfield (.builtin hfound hd hcls harity)

/-! ## Methods of superclasses -/

/-- The method that a superclass has under a name. -/
def Superclass.findMethod? (method : String) : Superclass → Option Method
  | .user c => c.findMethod? method
  | .builtin b => if b.hasMethod method then some (.builtin b) else none

/-- What is found at a superclass of a class in the lineage of an instance is found at a built-in
class above the instance. -/
theorem Superclass.mem_builtinAncestors {c d : Class} {s : Superclass} (hd : d ∈ c.lineage)
    (hs : s ∈ d.superclasses) {method : String} {b : BuiltinClass}
    (hfound : s.findMethod? method = some (.builtin b)) :
    b ∈ c.builtinAncestors ∧ b.hasMethod method = true := by
  cases s with
  | user parent =>
    have hparent : parent ∈ c.lineage :=
      Class.lineage_subset d c hd (Class.lineage_subset_of_superclass hs parent.mem_lineage_self)
    exact ⟨Class.builtinAncestors_subset hparent
      (Class.mem_builtinAncestors_of_findMethod? hfound), Class.hasMethod_of_findMethod? _ hfound⟩
  | builtin b' =>
    have hself : (if b'.hasMethod method then some (Method.builtin b') else none) =
        some (.builtin b) := hfound
    split at hself
    · next hhas =>
      obtain rfl := Method.builtin.inj (Option.some.inj hself)
      exact ⟨Class.mem_builtinAncestors.mpr ⟨d, hd, hs⟩, hhas⟩
    · cases hself

section

variable {sources : String → Prop} {m : Machine} {id : ExprId} {home : ModuleId} {k : Nat}
  {receiver superclasses : FrameId} {object : ObjectId} {keyword className method : Token}
  {s : Superclass}

/-- A superclass access asks the superclass that it finds. -/
theorem FindsReceiver.evaluate_eq
    (h : FindsReceiver sources m id home k receiver superclasses object)
    (hs : m.frames.local? superclasses (superBinding className.lexeme) = some s.toValue)
    (levels : Nat) :
    evaluate (levels + 1) (.super id keyword className method) m =
      (match s with
        | .user parent => Evaluator.userSuperMethod object parent method
        | .builtin _ =>
          Evaluator.bindSuperMethod object method (s.findMethod? method.lexeme)) m := by
  have hancestor : m.frames.ancestor m.current (k + 1) = .ok superclasses := by
    rw [Frames.ancestor, h.outer]
  have hget : m.frames.getAt m.current k "this" = .ok (.object object) := by
    rw [Frames.getAt_eq h.inner, h.this]
  have hdistance : Run.distance? id m = .ok (some (k + 1)) m := by
    rw [distance?_eq h.active id, h.recorded]
  have houter : Run.ofExcept (m.frames.ancestor m.current (k + 1)) m = .ok superclasses m := by
    rw [hancestor]
    rfl
  have hinner : Run.ofExcept (m.frames.getAt m.current k "this") m = .ok (.object object) m := by
    rw [hget]
    rfl
  rw [evaluate]
  refine (Run.bind_of_ok hdistance).trans ((Run.bind_of_ok houter).trans ?_)
  rw [hs]
  refine (Run.bind_of_ok hinner).trans ?_
  cases s with
  | user parent => rfl
  | builtin b => rfl

/-- Any method but the initializer is bound to the backing instance. -/
theorem bindSuperMethod_builtin {b : BuiltinClass} {d : Datum} {arity : Nat}
    (hinit : method.lexeme ≠ "init") (hd : (m.store.heap.object object).native? b = some d)
    (hcls : d.cls = b) (harity : b.methodArity? method.lexeme = some arity) :
    Evaluator.bindSuperMethod object method (some (.builtin b)) m =
      .ok (m.backingMethod d method.lexeme arity) m.numbered := by
  show (if method.lexeme = "init" then _ else _ : Run Value) m = _
  rw [if_neg hinit]
  rw [Run.heap_bind, hd]
  exact Run.bind_of_ok (action_bindMethod? m method _ (hcls.symm ▸ harity))

/-- The initializer is one for the instance. -/
theorem bindSuperMethod_init (m : Machine) (object : ObjectId) (b : BuiltinClass)
    (hinit : method.lexeme = "init") :
    ∃ n m', Evaluator.bindSuperMethod object method (some (.builtin b)) m =
      .ok (.native ⟨n, b.name ++ ".init", b.arity, .superInit object b⟩) m' := by
  have heq : Evaluator.bindSuperMethod object method (some (.builtin b)) m =
      (Evaluator.setStatus object b.name .initializing >>= fun _ =>
        Evaluator.superInit b.name b.arity (.superInit object b)) m := by
    show (if method.lexeme = "init" then _ else _ : Run Value) m = _
    rw [if_pos hinit]
  rw [heq]
  exact ⟨_, _, rfl⟩

/-- A class of the program that has an initializer from a built-in class has none of its own. -/
theorem Class.ownInit?_of_findMethod? {c : Class} {b : BuiltinClass}
    (h : c.findMethod? "init" = some (.builtin b)) : c.ownInit? = none := by
  cases c with
  | mk n name supers methods =>
    unfold Class.findMethod? at h
    split at h
    · cases h
    · next hnone => exact hnone

/-- A superclass access to a built-in class binds the method to the backing of the receiver. -/
theorem FindsReceiver.evaluate_builtin
    (h : FindsReceiver sources m id home k receiver superclasses object)
    (hs : m.frames.local? superclasses (superBinding className.lexeme) = some s.toValue)
    {b : BuiltinClass} (hfound : s.findMethod? method.lexeme = some (.builtin b)) {d : Datum}
    {arity : Nat} (hinit : method.lexeme ≠ "init")
    (hd : (m.store.heap.object object).native? b = some d) (hcls : d.cls = b)
    (harity : b.methodArity? method.lexeme = some arity) (levels : Nat) :
    evaluate (levels + 1) (.super id keyword className method) m =
      .ok (m.backingMethod d method.lexeme arity) m.numbered := by
  have hbound := bindSuperMethod_builtin (m := m) hinit hd hcls harity
  rw [h.evaluate_eq hs levels]
  cases s with
  | user parent =>
    have hparent : parent.findMethod? method.lexeme = some (.builtin b) := hfound
    simp only [Evaluator.userSuperMethod, if_neg hinit, hparent]
    exact hbound
  | builtin b' =>
    dsimp only
    rw [hfound]
    exact hbound

/-- Asked for its initializer a built-in class answers one that rebuilds the backing. -/
theorem FindsReceiver.evaluate_init
    (h : FindsReceiver sources m id home k receiver superclasses object)
    (hs : m.frames.local? superclasses (superBinding className.lexeme) = some s.toValue)
    {b : BuiltinClass} (hfound : s.findMethod? method.lexeme = some (.builtin b))
    (hinit : method.lexeme = "init") (levels : Nat) :
    ∃ n m', evaluate (levels + 1) (.super id keyword className method) m =
      .ok (.native ⟨n, b.name ++ ".init", b.arity, .superInit object b⟩) m' := by
  rw [h.evaluate_eq hs levels]
  cases s with
  | user parent =>
    have hparent : parent.findMethod? method.lexeme = some (.builtin b) := hfound
    have hown : parent.ownInit? = none := Class.ownInit?_of_findMethod? (hinit ▸ hparent)
    simp only [Evaluator.userSuperMethod, if_pos hinit, hown, hparent, Option.isSome_none,
      Option.isNone_some, Bool.false_eq_true, if_false]
    -- The slot of the superclass is dealt with first, which touches nothing else.
    exact bindSuperMethod_init
      (m.withHeap (m.store.heap.modifyObject object fun i => i.setStatus parent.name .initialized))
      object b hinit
  | builtin b' =>
    dsimp only
    rw [hfound]
    exact bindSuperMethod_init m object b hinit

end

theorem Instance.native?_setNative (i : Instance) (b : BuiltinClass) (d : Datum) :
    (i.setNative b d).native? b = some d := by
  have hfind : ∀ natives : List (BuiltinClass × Datum),
      ((putNative b d natives).find? (·.1 == b)).map (·.2) = some d := by
    intro natives
    induction natives with
    | nil => simp [putNative]
    | cons n rest ih =>
      obtain ⟨c, e⟩ := n
      unfold putNative
      by_cases hc : c = b
      · simp [hc]
      · simp [hc, ih]
  exact hfind i.natives

/-- Calling the initializer of a built-in superclass makes an instance of the built-in class from
the arguments and puts it in the place of the one that backs the object. -/
def Rebuilds (object : ObjectId) (b : BuiltinClass) : Prop :=
  ∀ args s d s₁, object < s.heap.objects.size → Builtin.construct b args s = .ok d s₁ →
    ∃ s₂, Builtin.callNative (.superInit object b) args s = .ok .null s₂ ∧
      (s₂.heap.object object).native? b = some d

theorem rebuilds (object : ObjectId) (b : BuiltinClass) : Rebuilds object b := by
  intro args s d s₁ hobject hmade
  obtain ⟨hobjects, hcall⟩ := Builtin.callNative_superInit object hmade
  refine ⟨_, hcall, ?_⟩
  rw [Heap.object_modifyObject, if_pos ⟨rfl, hobjects ▸ hobject⟩]
  exact Instance.native?_setNative (s₁.heap.object object) b d

/-- What a superclass access that is about to be evaluated comes to if it finds its method at a
built-in class: a method of what backs the receiver, or for `init` the initializer that puts
another instance in its place. -/
def Moment.SuperServed (sources : String → Prop) (m : Machine) : Moment → Prop
  | .evaluating (.super id keyword className method) =>
    ∃ home k receiver superclasses object,
      FindsReceiver sources m id home k receiver superclasses object ∧
        ∀ (s : Superclass) (b : BuiltinClass),
          m.frames.local? superclasses (superBinding className.lexeme) = some s.toValue →
          s.findMethod? method.lexeme = some (.builtin b) →
          ∃ d arity, (m.store.heap.object object).native? b = some d ∧ d.cls = b ∧
            b.methodArity? method.lexeme = some arity ∧
            (method.lexeme ≠ "init" → ∀ levels,
              evaluate (levels + 1) (.super id keyword className method) m =
                .ok (m.backingMethod d method.lexeme arity) m.numbered) ∧
            (method.lexeme = "init" → Rebuilds object b ∧ ∀ levels, ∃ n m',
              evaluate (levels + 1) (.super id keyword className method) m =
                .ok (.native ⟨n, b.name ++ ".init", b.arity, .superInit object b⟩) m')
  | _ => True

/-- Superclasses are told apart by their values. -/
theorem Superclass.toValue_inj {s t : Superclass} (h : s.toValue = t.toValue) : s = t := by
  cases s with
  | user c =>
    cases t with
    | user d => rw [Value.cls.inj h]
    | builtin b => cases h
  | builtin b =>
    cases t with
    | user d => cases h
    | builtin b' => rw [Value.builtinClass.inj h]

/-- A superclass access that is ready is served. -/
theorem Ready.super_served {settled : Nat} {w : World} {m : Machine} {home : ModuleId}
    {stack : Stack} {id : ExprId} {keyword className method : Token}
    (hr : Ready settled w m home stack (exprUses stack (.super id keyword className method))
      (exprMarks (.super id keyword className method))) :
    Moment.SuperServed w.sources m (.evaluating (.super id keyword className method)) := by
  obtain ⟨k, f, g, object, c, hfinds, hc, hholds⟩ := hr.super_holder className
  refine ⟨home, k, f, g, object, hfinds, fun s b hs hfound => ?_⟩
  obtain ⟨s', hmem, heq⟩ := hholds _ _ hs
  obtain rfl := Superclass.toValue_inj heq
  obtain ⟨hb, hhas⟩ := Superclass.mem_builtinAncestors hc hmem hfound
  obtain ⟨d, hd, hcls⟩ := (hr.sound.heap.backed object).native? hb
  obtain ⟨arity, harity⟩ := Option.isSome_iff_exists.mp hhas
  refine ⟨d, arity, hd, hcls, harity, fun hinit levels => ?_, fun hinit => ⟨rebuilds object b, ?_⟩⟩
  · exact hfinds.evaluate_builtin hs hfound hinit hd hcls harity levels
  · exact fun levels => hfinds.evaluate_init hs hfound hinit levels

theorem Foreseen.super_served {w : World} {moment : Moment} {m : Machine}
    (h : Foreseen w moment m) : moment.SuperServed w.sources m := by
  obtain ⟨w₀, -, hs, home, stack, hr⟩ := h
  cases moment with
  | executing s => trivial
  | evaluating e =>
    cases e with
    | super id keyword className method => exact hs ▸ hr.super_served
    | _ => trivial

/-! ## Whole sessions -/

/-- What a construct evaluates before it reads or writes a property or calls a value. -/
def Moment.subjects : Moment → List Expr
  | .evaluating (.get _ object _) => [object]
  | .evaluating (.set _ object _ value) => [object, value]
  | moment => moment.operands

/-- What is called or asked for a property is ready where the moment is. -/
theorem Ready.subject {w : World} {m : Machine} {home : ModuleId} {stack : Stack} {moment : Moment}
    (hr : Ready 0 w m home stack (moment.uses stack) moment.marks) {e : Expr}
    (he : e ∈ moment.subjects) : Ready 0 w m home stack (exprUses stack e) (exprMarks e) := by
  unfold Moment.subjects at he
  split at he
  · next object name =>
    obtain rfl := List.mem_singleton.mp he
    exact hr.part (List.Subset.refl _) (List.Subset.refl _)
  · next id object name value =>
    rcases List.mem_cons.mp he with rfl | he
    · exact Ready.right hr
    · obtain rfl := List.mem_singleton.mp he
      exact Ready.left hr
  · exact hr.operand he

namespace Session

/-- In every session, at every moment and whatever a construct has come to at it, and after every
step, an instance has one backing instance for each built-in class above its class and no other,
each of the class that it is filed under. So a method from a built-in class is always served by the
backing instance for that class: read as a property that no field hides, called by an operator or
index form, or asked of a superclass. An `init` that is asked of a superclass is the initializer
that puts another instance in the place of that backing instance. -/
theorem instances_backed (files : FileSystem) (clock depth : Nat) (steps : List Step) :
    (Throughout files clock depth steps fun moment m =>
      moment.SuperServed (sources files steps) m ∧
        ∀ levels vs m₁, (evaluatorUpTo levels).Gathers moment.subjects m vs m₁ →
          ∀ (active? : Option ModuleId), ∀ id < m₁.store.heap.objects.size,
            (m₁.store.heap.object id).BackedExactly ∧
              Machine.Serves { m₁ with active? := active? } id) ∧
    ∀ r ∈ play depth (start files clock) steps, ∀ id < r.2.machine.store.heap.objects.size,
      (r.2.machine.store.heap.object id).BackedExactly := by
  obtain ⟨w, hsources, hforeseen, -⟩ := throughout_foreseen files clock depth steps
  refine ⟨hforeseen.mono fun moment m hm => ⟨hsources ▸ hm.super_served, ?_⟩, ?_⟩
  · intro levels vs m₁ hgathers active? id _
    obtain ⟨w₀, -, -, home, stack, hr⟩ := hm
    obtain ⟨w₁, h₁, -⟩ := hgathers.sound_of hr.sound fun _ he => hr.subject he
    -- Which module is active makes no difference to what serves a method.
    have hs := h₁.sound.place active? m₁.current
    exact ⟨hs.backed id, hs.serves id⟩
  · intro r hr id _
    obtain ⟨w', hs⟩ := steps_sound files clock depth steps r hr
    exact hs.backed id

/-- A program in which a superclass is asked for `init` after the instance has been made: calling
it answers with nothing and changes the backing instance, whose length is printed. The method of
the backing instance, which the property is, answers with a new array and changes nothing. -/
theorem super_init_rebuilds :
    Prod.map id (fun s => s.machine.store.output)
      (runUpTo 16 (start ⟨[], []⟩ 0)
        ("class A extends Array \x7b again() \x7b return super(Array).init([1, 2]); \x7d \x7d " ++
          "var a = A(); print a.again(); print a.length();")) =
      (.ok, #["null", "2"]) ∧
    Prod.map id (fun s => s.machine.store.output)
      (runUpTo 16 (start ⟨[], []⟩ 0)
        ("class A extends Array \x7b \x7d " ++
          "var a = A(); print a.init([1, 2]); print a.length();")) =
      (.ok, #["[1, 2]", "0"]) := by
  decide +kernel

end Session

end ScriptEngine
