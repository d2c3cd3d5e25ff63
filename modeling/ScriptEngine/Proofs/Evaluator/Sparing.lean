import ScriptEngine.Proofs.Class.Slot
import ScriptEngine.Proofs.Evaluator.Importing
import ScriptEngine.Proofs.Heap.Fit
import ScriptEngine.Proofs.Heap.Objects

/-!
# Computations that close no slot

The slot of a superclass is closed once it is initialized. Nearly everything that the evaluator does
leaves an open slot open: a plain computation does not touch instances at all, fields are no slots,
a new instance begins with open slots, and a slot that is marked as being initialized is not closed
by that. Such a computation `Spares` the slot.

Three computations do not: the end of a call of an initializer (`closed_finishInit`), the native
initializer of a built-in superclass (`closed_callNative`), and asking a superclass of the program
for an initializer that it does not declare (`closed_userSuperMethod`).
-/

namespace ScriptEngine

/-- The slot of a superclass in an instance: the object, the position of the superclass among those
of the class, and its name. -/
structure Slot where
  object : ObjectId
  position : Nat
  name : String

/-- The slot is initialized. The first slot of an instance is that of its class. -/
def Slot.Closed (slot : Slot) (h : Heap) : Prop :=
  (h.object slot.object).statuses[slot.position + 1]? = some ⟨slot.name, .initialized⟩

namespace Slot

variable {slot : Slot} {h : Heap}

/-- Whether a slot is closed depends on the instances alone. -/
theorem closed_of_objects {h' : Heap} (hobjects : h'.objects = h.objects)
    (hclosed : slot.Closed h') : slot.Closed h := by
  unfold Closed Heap.object at hclosed ⊢
  rwa [hobjects] at hclosed

/-- A slot that an instance has after a change is that of the instance before, or the change is to
this instance. -/
theorem closed_modifyObject {id : ObjectId} {f : Instance → Instance}
    (hclosed : slot.Closed (h.modifyObject id f)) :
    slot.Closed h ∨ id = slot.object ∧
      (f (h.object id)).statuses[slot.position + 1]? = some ⟨slot.name, .initialized⟩ := by
  unfold Closed at hclosed
  rw [Heap.object_modifyObject] at hclosed
  split at hclosed
  · next heq => exact Or.inr ⟨heq.1.symm, heq.1 ▸ hclosed⟩
  · exact Or.inl hclosed

/-- A change that is no progress closes nothing. -/
theorem closed_of_statuses {id : ObjectId} {f : Instance → Instance}
    (hf : ∀ i, (f i).statuses = i.statuses) (hclosed : slot.Closed (h.modifyObject id f)) :
    slot.Closed h := by
  rcases closed_modifyObject hclosed with hbefore | ⟨rfl, hslot⟩
  · exact hbefore
  · rw [hf] at hslot
    exact hslot

/-- Progress of a class closes a slot only if the class has its name and is initialized, and only if
it is not hidden behind an earlier slot of this name. -/
theorem closed_setStatus {id : ObjectId} {f : Instance → Instance} {name : String}
    {status : InitStatus} (hf : ∀ i, (f i).statuses = (i.setStatus name status).statuses)
    (hclosed : slot.Closed (h.modifyObject id f)) :
    slot.Closed h ∨ id = slot.object ∧ name = slot.name ∧ status = .initialized ∧
      Instance.First (h.object id).statuses (slot.position + 1) := by
  rcases closed_modifyObject hclosed with hbefore | ⟨rfl, hslot⟩
  · exact Or.inl hbefore
  · rw [hf] at hslot
    change (Instance.updateSlot name status _)[_]? = _ at hslot
    rcases Instance.updateSlot_getElem? name status (h.object slot.object).statuses
        (slot.position + 1) with hsame | ⟨-, hfirst, hnew⟩
    · rw [hsame] at hslot
      exact Or.inl hslot
    · have heq := StatusSlot.mk.inj (Option.some.inj (hnew.symm.trans hslot))
      exact Or.inr ⟨rfl, heq.1, heq.2, hfirst⟩

/-- The superclass slots of a new instance are open. -/
theorem open_create (c : Class) (natives : List (BuiltinClass × Datum)) (n : Nat) (name : String) :
    (Instance.create c natives).statuses[n + 1]? ≠ some ⟨name, .initialized⟩ := by
  intro hslot
  have hstatuses : (Instance.create c natives).statuses[n + 1]? =
      (c.superclasses.map fun s => (⟨s.name, .notInitialized⟩ : StatusSlot))[n]? := rfl
  rw [hstatuses] at hslot
  obtain ⟨s, -, heq⟩ := List.mem_map.mp (List.mem_of_getElem? hslot)
  cases (StatusSlot.mk.inj heq).2

/-- A new instance closes no slot of its own. -/
theorem closed_newObject {c : Class} {natives : List (BuiltinClass × Datum)} {h' : Heap}
    (hobjects : h'.objects = h.objects.push (Instance.create c natives))
    (hclosed : slot.Closed h') : slot.Closed h := by
  have hpushed : slot.Closed (h.newObject (Instance.create c natives)).2 :=
    closed_of_objects hobjects hclosed
  unfold Closed at hpushed
  rw [Heap.object_newObject] at hpushed
  split at hpushed
  · exact absurd hpushed (open_create c natives _ _)
  · exact hpushed

end Slot

namespace Run

/-- If the slot is open, then it is open after the computation, however this ends. -/
def Spares {α : Type} (slot : Slot) (x : Run α) : Prop :=
  ∀ m, slot.Closed (left (x m)).store.heap → slot.Closed m.store.heap

variable {α β : Type} {slot : Slot}

/-- Plain computations spare every slot. -/
theorem spares_plain {x : Run α} (hx : Plain x) : Spares slot x :=
  fun m h => Slot.closed_of_objects (hx.objects m) h

/-- A sequence spares a slot if its parts do. -/
theorem spares_bind {x : Run α} {f : α → Run β} (hx : Spares slot x)
    (hf : ∀ a, Spares slot (f a)) : Spares slot (x >>= f) := by
  intro m h
  have hfirst := hx m
  change slot.Closed (left (EStateM.bind x f m)).store.heap at h
  unfold EStateM.bind at h
  cases hr : x m with
  | error halt m₁ =>
    rw [hr] at h hfirst
    exact hfirst h
  | ok a m₁ =>
    rw [hr] at h hfirst
    exact hfirst (hf a m₁ h)

/-- Reading the machine is no step. -/
theorem get_bind (f : Machine → Run β) (m : Machine) : (get >>= f : Run β) m = f m m := rfl

/-! ## New instances -/

/-- Making an instance spares every slot. -/
theorem spares_newInstance (token : Token) (c : Class) :
    Spares slot (action token (Builtin.newInstance c)) := by
  intro m h
  cases hr : Builtin.newInstance c m.store with
  | ok id s =>
    obtain ⟨natives, -, hobjects⟩ := Builtin.newInstance_ok hr
    rw [action_of_ok token hr] at h
    exact Slot.closed_newObject hobjects h
  | error fault s =>
    rw [action_of_error token hr] at h
    exact Slot.closed_of_objects (Builtin.newInstance_error hr) h

/-- The superclass slots of a new instance are open. -/
theorem open_newInstance {token : Token} {c : Class} {id : ObjectId} {m m' : Machine}
    (h : action token (Builtin.newInstance c) m = .ok id m') (n : Nat) (name : String) :
    ¬ Slot.Closed ⟨id, n, name⟩ m'.store.heap := by
  cases hr : Builtin.newInstance c m.store with
  | ok id' s =>
    rw [action_of_ok token hr] at h
    cases h
    obtain ⟨natives, rfl, hobjects⟩ := Builtin.newInstance_ok hr
    intro hclosed
    have hpushed : Slot.Closed ⟨m.store.heap.objects.size, n, name⟩
        (m.store.heap.newObject (Instance.create c natives)).2 :=
      Slot.closed_of_objects hobjects hclosed
    unfold Slot.Closed at hpushed
    rw [Heap.object_newObject, if_pos rfl] at hpushed
    exact Slot.open_create c natives n name hpushed
  | error fault s =>
    rw [action_of_error token hr] at h
    cases h

end Run

namespace Evaluator

open Run

variable {slot : Slot}

/-- Fields are no slots. -/
theorem spares_setField (id : ObjectId) (name : String) (v : Value) :
    Spares slot (modifyHeap fun h => h.modifyObject id fun i => i.setField name v) :=
  fun _ h => Slot.closed_of_statuses (f := fun i => i.setField name v) (fun _ => rfl) h

/-! ## Computations that close slots -/

theorem closed_setStatus {m : Machine} {id : ObjectId} {name : String} {status : InitStatus}
    (h : slot.Closed (left (setStatus id name status m)).store.heap) :
    slot.Closed m.store.heap ∨ id = slot.object ∧ name = slot.name ∧ status = .initialized :=
  (Slot.closed_setStatus (fun _ => rfl) h).imp_right fun ⟨hid, hname, hstatus, _⟩ =>
    ⟨hid, hname, hstatus⟩

/-- A slot that is being initialized is open. -/
theorem spares_initializing (id : ObjectId) (name : String) :
    Spares slot (setStatus id name .initializing) := by
  intro m h
  rcases closed_setStatus h with hbefore | ⟨-, -, hstatus⟩
  · exact hbefore
  · cases hstatus

/-- The end of a call of an initializer closes the slot of the class that declares it, in the
instance that it is bound to, unless an earlier slot has the same name. -/
theorem closed_finishInit {m : Machine} {f : Function} {result : Value}
    (h : slot.Closed (left (finishInit f result m)).store.heap) :
    slot.Closed m.store.heap ∨ m.frames.local? f.closure "this" = some (.object slot.object) ∧
      f.owner? = some slot.name ∧
      Instance.First (m.store.heap.object slot.object).statuses (slot.position + 1) := by
  unfold finishInit at h
  rw [get_bind] at h
  cases hthis : m.frames.local? f.closure "this" with
  | none =>
    rw [hthis] at h
    exact Or.inl h
  | some this =>
    rw [hthis] at h
    cases this with
    | object id =>
      cases howner : f.owner? with
      | some owner =>
        rw [howner] at h
        change slot.Closed (m.store.heap.modifyObject id fun i => i.setStatus owner .initialized)
          at h
        rcases Slot.closed_setStatus (fun _ => rfl) h with hbefore | ⟨rfl, rfl, -, hfirst⟩
        · exact Or.inl hbefore
        · exact Or.inr ⟨rfl, rfl, hfirst⟩
      | none =>
        rw [howner] at h
        exact Or.inl h
    | _ => exact Or.inl h

/-- A native function closes the slot of a built-in superclass if it is the initializer for that and
comes back. -/
theorem closed_callNative {m : Machine} {token : Token} {f : NativeAction} {args : List Value}
    (h : slot.Closed (left (action token (Builtin.callNative f args) m)).store.heap) :
    slot.Closed m.store.heap ∨ ∃ b v m', f = .superInit slot.object b ∧ b.name = slot.name ∧
      action token (Builtin.callNative f args) m = .ok v m' := by
  by_cases hinit : ∃ object b, f = .superInit object b
  · obtain ⟨object, b, rfl⟩ := hinit
    cases hr : Builtin.construct b args m.store with
    | ok d s =>
      obtain ⟨hobjects, hcall⟩ := Builtin.callNative_superInit object hr
      have haction := action_of_ok token hcall
      rw [haction] at h
      change slot.Closed (s.heap.modifyObject object fun i =>
        (i.setNative b d).setStatus b.name .initialized) at h
      have hstatuses : ∀ i : Instance, ((i.setNative b d).setStatus b.name .initialized).statuses =
          (i.setStatus b.name .initialized).statuses := fun _ => rfl
      rcases Slot.closed_setStatus hstatuses h with hbefore | ⟨rfl, hname, -, -⟩
      · exact Or.inl (Slot.closed_of_objects hobjects hbefore)
      · exact Or.inr ⟨b, _, _, rfl, hname, haction⟩
    | error fault s =>
      obtain ⟨hobjects, hcall⟩ := Builtin.callNative_superInit_error object hr
      rw [action_of_error token hcall] at h
      exact Or.inl (Slot.closed_of_objects hobjects h)
  · have hspares : Action.Spares (Builtin.callNative f args) :=
      Builtin.spares_callNative (fun object b heq => hinit ⟨object, b, heq⟩) args
    exact Or.inl (spares_plain (plain_action token hspares) m h)

/-! ## Methods of superclasses -/

/-- Binding what a superclass answers spares every slot. -/
theorem spares_bindSuperMethod (id : ObjectId) (method : Token) (found : Option Method) :
    Spares slot (bindSuperMethod id method found) := by
  rcases bindSuperMethod_cases id method found with hplain | ⟨name, arity, act, hinit⟩
  · exact spares_plain hplain
  · rw [hinit]
    exact spares_bind (spares_initializing _ _) fun _ => spares_plain (plain_superInit _ _ _)

/-- Asking a superclass of the program for the initializer closes its slot if it declares none. -/
theorem closed_userSuperMethod {m : Machine} {id : ObjectId} {parent : Class} {method : Token}
    (h : slot.Closed (left (userSuperMethod id parent method m)).store.heap) :
    slot.Closed m.store.heap ∨ id = slot.object ∧ parent.name = slot.name ∧
      method.lexeme = "init" ∧ parent.ownInit? = none := by
  unfold userSuperMethod at h
  split at h
  · next hinit =>
    split at h
    · refine Or.inl (spares_bind (spares_initializing _ _) (fun _ => ?_) m h)
      exact spares_bindSuperMethod _ _ _
    · next hown =>
      have hnone : parent.ownInit? = none := by
        cases hown' : parent.ownInit? with
        | none => rfl
        | some init => exact absurd (by rw [hown']; rfl) hown
      have hstatus : slot.Closed (left (setStatus id parent.name .initialized m)).store.heap := by
        have hrest : ∀ _ : Unit, Spares slot (if (parent.findMethod? method.lexeme).isNone then
            superInit parent.name 0 .emptyInit
          else bindSuperMethod id method (parent.findMethod? method.lexeme)) := by
          intro _
          split
          · exact spares_plain (plain_superInit _ _ _)
          · exact spares_bindSuperMethod _ _ _
        exact hrest () _ h
      rcases closed_setStatus hstatus with hbefore | ⟨hid, hname, -⟩
      · exact Or.inl hbefore
      · exact Or.inr ⟨hid, hname, hinit, hnone⟩
  · exact Or.inl (spares_bindSuperMethod _ _ _ m h)

/-- A superclass access asks for an initializer that the superclass, which is one of the program,
does not declare: how the superclass and the receiver are found, and what the slot has to do with
them. -/
structure AsksUndeclared (slot : Slot) (m : Machine) (id : ExprId) (className method : Token) :
    Prop where
  init : method.lexeme = "init"
  found : ∃ k frame parent, distance? id m = .ok (some (k + 1)) m ∧
    m.frames.ancestor m.current (k + 1) = .ok frame ∧
    m.frames.local? frame (superBinding className.lexeme) = some (.cls parent) ∧
    m.frames.getAt m.current k "this" = .ok (.object slot.object) ∧
    parent.ownInit? = none ∧ parent.name = slot.name

/-- Looking up a distance changes nothing: it fails, or the rest goes on in the same machine. -/
theorem closed_bind_distance? {α : Type} {m : Machine} {id : ExprId} {f : Option Nat → Run α}
    (h : slot.Closed (left ((distance? id >>= f) m)).store.heap) :
    slot.Closed m.store.heap ∨ ∃ distance?, Run.distance? id m = .ok distance? m ∧
      slot.Closed (left (f distance? m)).store.heap := by
  cases hactive : m.active? with
  | none =>
    have hfails : Run.distance? id m = .error (.failed (.internal .noActiveModule)) m :=
      bind_of_error (activeModule_eq_none hactive)
    rw [bind_of_error hfails] at h
    exact Or.inl h
  | some home =>
    have hfound : Run.distance? id m = .ok (m.modules.node home).distances[id]? m :=
      bind_of_ok (activeModule_eq hactive)
    rw [bind_of_ok hfound] at h
    exact Or.inr ⟨_, hfound, h⟩

/-- A slot is closed after something that is done already by what follows it. -/
theorem closed_bind_ofExcept {α β : Type} {m : Machine} {r : Except RuntimeError α}
    {f : α → Run β} (h : slot.Closed (left ((ofExcept r >>= f) m)).store.heap) :
    slot.Closed m.store.heap ∨ ∃ a, r = .ok a ∧ slot.Closed (left (f a m)).store.heap := by
  cases r with
  | ok a => exact Or.inr ⟨a, rfl, h⟩
  | error e => exact Or.inl h

/-- A superclass access closes the slot only by asking for an undeclared initializer. -/
theorem closed_superMethod {m : Machine} {id : ExprId} {keyword className method : Token}
    (h : slot.Closed (left (superMethod id keyword className method m)).store.heap) :
    slot.Closed m.store.heap ∨ AsksUndeclared slot m id className method := by
  unfold superMethod at h
  rcases closed_bind_distance? h with hbefore | ⟨distance?, hdistance, h⟩
  · exact Or.inl hbefore
  cases distance? with
  | none => exact Or.inl h
  | some distance =>
    dsimp only at h
    rw [get_bind] at h
    rcases closed_bind_ofExcept h with hbefore | ⟨frame, hframe, h⟩
    · exact Or.inl hbefore
    cases hsuper : m.frames.local? frame (superBinding className.lexeme) with
    | none =>
      rw [hsuper] at h
      exact Or.inl h
    | some superclass =>
      rw [hsuper] at h
      cases distance with
      | zero => exact Or.inl h
      | succ k =>
        dsimp only at h
        rcases closed_bind_ofExcept h with hbefore | ⟨this, hthis, h⟩
        · exact Or.inl hbefore
        -- Only an instance has slots, and only a superclass of the program closes one when asked.
        cases this with
        | object object =>
          cases superclass with
          | cls parent =>
            rcases closed_userSuperMethod h with hbefore | ⟨rfl, hname, hinit, hown⟩
            · exact Or.inl hbefore
            · exact Or.inr
                ⟨hinit, k, frame, parent, hdistance, hframe, hsuper, hthis, hown, hname⟩
          | builtinClass b => exact Or.inl (spares_bindSuperMethod _ _ _ m h)
          | _ => exact Or.inl h
        | _ => exact Or.inl h

end Evaluator

end ScriptEngine
