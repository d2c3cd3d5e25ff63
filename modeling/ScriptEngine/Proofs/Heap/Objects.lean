import ScriptEngine.Proofs.Heap.Methods

/-!
# Built-in functions and the instances of user classes

Built-in functions read instances, but they leave all of them as they are. There are two
exceptions: making an instance, and the initializer of a built-in superclass, which replaces a
backing instance and closes a slot (`callNative_superInit`).
-/

namespace ScriptEngine

namespace Action

/-- However it ends, the action leaves the instances as they are. -/
def Spares {α : Type} (a : Action α) : Prop :=
  ∀ s, match a s with
    | .ok _ s' => s'.heap.objects = s.heap.objects
    | .error _ s' => s'.heap.objects = s.heap.objects

section Rules

variable {α β : Type}

theorem spares_pure (a : α) : Spares (pure a) :=
  fun _ => rfl

theorem spares_throw (fault : BuiltinFault) : Spares (throw fault : Action α) :=
  fun _ => rfl

/-- Two actions that leave the instances alone do so one after the other. -/
theorem spares_bind {a : Action α} {f : α → Action β} (ha : Spares a) (hf : ∀ v, Spares (f v)) :
    Spares (a >>= f) := by
  intro s
  have h := ha s
  show match EStateM.bind a f s with | .ok _ s' => _ | .error _ s' => _
  unfold EStateM.bind
  cases hr : a s with
  | error e s' =>
    rw [hr] at h
    exact h
  | ok v s' =>
    rw [hr] at h
    have h' := hf v s'
    cases hr' : f v s' with
    | error e s'' =>
      simp only [hr'] at h' ⊢
      exact h'.trans h
    | ok u s'' =>
      simp only [hr'] at h' ⊢
      exact h'.trans h

theorem spares_heap : Spares Action.heap :=
  fun _ => rfl

/-- A computation on the heap spares the instances if its result has the same ones. -/
theorem spares_onHeap {f : Heap → α × Heap} (hf : ∀ h, (f h).2.objects = h.objects) :
    Spares (onHeap f) :=
  fun s => hf s.heap

theorem spares_readClock : Spares readClock :=
  fun _ => rfl

theorem spares_orRefuse (a? : Option α) (fault : BuiltinFault) : Spares (orRefuse a? fault) := by
  cases a? with
  | some a => exact spares_pure a
  | none => exact spares_throw fault

end Rules

end Action

/-- Work on the heap leaves the instances as they are. -/
theorem Heap.Works.objects {changes : Value → Prop} {given hand : List Value} {h h' : Heap}
    (work : h.Works changes given h' hand) : h'.objects = h.objects := by
  induction work with
  | start => rfl
  | take _ _ ih | newArray _ _ ih | newMap _ _ ih | newError _ _ ih => exact ih
  | modifyArray _ _ _ ih | modifyMap _ _ _ ih => exact ih

namespace Builtin

open ScriptEngine.Action

/-- Work on the heap changes no instance of a user class. -/
theorem Worked.objects {changes : Value → Prop} {given : List Value} {s s' : Store} {v : Value}
    (hworked : Worked changes given s v s') : s'.heap.objects = s.heap.objects := by
  obtain ⟨hand, work, -⟩ := hworked
  exact work.objects

/-- An action that answers with work done, or refuses at once, spares the instances. -/
theorem spares_of_settles {α : Type} {Q : Store → α → Store → Prop} {a : Action α}
    (ha : ∀ s, Settles s (Q s) a)
    (hQ : ∀ s v s', Q s v s' → s'.heap.objects = s.heap.objects) : Spares a := by
  intro s
  cases hr : a s with
  | error fault s' => exact congrArg (·.heap.objects) ((ha s).error hr).1
  | ok v s' => exact hQ s v s' ((ha s).ok hr)

/-- Making an instance of a built-in class spares those of user classes. -/
theorem spares_construct (c : BuiltinClass) (args : List Value) : Spares (construct c args) := by
  have hmade : ∀ s, Settles s (Made (fun _ => False) args c s) (construct c args) :=
    fun s => comes_construct c (List.Subset.refl args)
  exact spares_of_settles hmade fun _ _ _ h => h.2.objects

theorem spares_defaultInstance (c : BuiltinClass) : Spares (defaultInstance c) := by
  have hmade : ∀ s, Settles s (Made (fun _ => False) [] c s) (defaultInstance c) :=
    fun s => comes_defaultInstance c
  exact spares_of_settles hmade fun _ _ _ h => h.2.objects

theorem spares_callMethod (receiver : Datum) (method : String) (args : List Value) :
    Spares (callMethod receiver method args) :=
  spares_of_settles (comes_callMethod receiver method args) fun _ _ _ h => h.objects

theorem spares_bindMethod? (receiver : Datum) (method : String) :
    Spares (bindMethod? receiver method) := by
  unfold bindMethod?
  split
  · exact spares_pure _
  · exact spares_bind (spares_onHeap fun _ => rfl) fun _ => spares_pure _

theorem spares_property? (receiver : Datum) (name : String) :
    Spares (property? receiver name) := by
  refine spares_bind spares_heap fun h => ?_
  split
  · exact spares_pure _
  · exact spares_bindMethod? receiver name

theorem spares_clock (args : List Value) : Spares (clock args) := by
  unfold clock
  dsimp only
  split
  -- The unit is given, or it is `milli`; whatever it is, the clock is read in the same way.
  all_goals
    refine spares_bind ?_ fun unit => spares_bind spares_readClock fun nanos => ?_
    · first
        | exact spares_pure _
        | exact spares_orRefuse _ _
    · split
      all_goals exact fun _ => rfl

/-- Of the native functions, only the initializer of a built-in superclass touches an instance. -/
theorem spares_callNative {action : NativeAction}
    (h : ∀ object b, action ≠ .superInit object b) (args : List Value) :
    Spares (callNative action args) := by
  cases action with
  | clock => exact spares_clock args
  | method receiver name => exact spares_callMethod receiver name args
  | emptyInit => exact spares_pure _
  | superInit object b => exact absurd rfl (h object b)

theorem spares_natives (bs : List BuiltinClass) :
    Spares (bs.mapM fun b => return (b, ← defaultInstance b)) := by
  induction bs with
  | nil => exact spares_pure []
  | cons b bs ih =>
    rw [List.mapM_cons]
    refine spares_bind (spares_bind (spares_defaultInstance b) fun _ => spares_pure _) fun n => ?_
    exact spares_bind ih fun natives => spares_pure _

/-- A new instance goes behind the others. -/
theorem newInstance_ok {c : Class} {s s' : Store} {id : ObjectId}
    (h : newInstance c s = .ok id s') :
    ∃ natives, id = s.heap.objects.size ∧
      s'.heap.objects = s.heap.objects.push (Instance.create c natives) := by
  have hspares := spares_natives c.builtinAncestors s
  change EStateM.bind _ _ s = _ at h
  unfold EStateM.bind at h
  split at h
  · next natives s₁ hr =>
    rw [hr] at hspares
    cases h
    refine ⟨natives, congrArg Array.size hspares, ?_⟩
    exact congrArg (fun objects : Array Instance => objects.push _) hspares
  · cases h

/-- A new instance that is refused is not made. -/
theorem newInstance_error {c : Class} {s s' : Store} {fault : BuiltinFault}
    (h : newInstance c s = .error fault s') : s'.heap.objects = s.heap.objects := by
  have hspares := spares_natives c.builtinAncestors s
  change EStateM.bind _ _ s = _ at h
  unfold EStateM.bind at h
  split at h
  · cases h
  · next hr =>
    rw [hr] at hspares
    cases h
    exact hspares

/-- The initializer of a built-in superclass puts a new instance of that class in the place of the
one that backed the object, and closes the slot of that class. -/
theorem callNative_superInit (object : ObjectId) {b : BuiltinClass} {args : List Value} {d : Datum}
    {s s' : Store} (h : construct b args s = .ok d s') :
    s'.heap.objects = s.heap.objects ∧
      callNative (.superInit object b) args s = .ok .null { s' with
        heap := s'.heap.modifyObject object fun i =>
          (i.setNative b d).setStatus b.name .initialized } := by
  have hspares := spares_construct b args s
  rw [h] at hspares
  refine ⟨hspares, ?_⟩
  show EStateM.bind (construct b args) _ s = _
  rw [EStateM.bind, h]
  rfl

/-- Arguments that the class refuses leave the instances as they are. -/
theorem callNative_superInit_error (object : ObjectId) {b : BuiltinClass} {args : List Value}
    {fault : BuiltinFault} {s s' : Store} (h : construct b args s = .error fault s') :
    s'.heap.objects = s.heap.objects ∧
      callNative (.superInit object b) args s = .error fault s' := by
  have hspares := spares_construct b args s
  rw [h] at hspares
  refine ⟨hspares, ?_⟩
  show EStateM.bind (construct b args) _ s = _
  rw [EStateM.bind, h]

end Builtin

end ScriptEngine
