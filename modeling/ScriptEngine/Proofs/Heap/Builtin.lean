import ScriptEngine.Proofs.Heap.Fit
import ScriptEngine.Proofs.Heap.Methods

/-!
# Built-in functions keep the heap fit

From a fit heap and fitting arguments a built-in function comes to a fit heap that has grown from
the first, and what it answers with fits there. Its refusals leave a fit heap behind as well. For
methods and classes this follows step by step from the work that they do (`Heap.Works.fits`). What
goes beyond such work has a lemma of its own: binding a method, the clock, the initializer of a
built-in superclass and the instances of user classes.
-/

namespace ScriptEngine

namespace Action

/-- From a store the action comes to a fit heap that has grown, and an answer has a property. -/
def Keeps {α : Type} (code : Value → Prop) (settled : Nat) (s : Store) (a : Action α)
    (Q : α → Heap → Prop) : Prop :=
  match a s with
  | .ok v s' => s.heap.Grows settled s'.heap ∧ s'.heap.Fit code ∧ Q v s'.heap
  | .error _ s' => s.heap.Grows settled s'.heap ∧ s'.heap.Fit code

section Rules

variable {α β : Type} {code : Value → Prop} {settled : Nat} {s : Store}
  {Q : α → Heap → Prop} {R : β → Heap → Prop}

/-- An answer leaves a fit heap as it is. -/
theorem keeps_pure {a : α} (hfit : s.heap.Fit code) (h : Q a s.heap) :
    Keeps code settled s (pure a) Q :=
  ⟨.refl _ _, hfit, h⟩

theorem keeps_throw (hfit : s.heap.Fit code) (fault : BuiltinFault) :
    Keeps code settled s (throw fault : Action α) Q :=
  ⟨.refl _ _, hfit⟩

/-- Two actions that keep a heap fit do so one after the other. -/
theorem keeps_bind {a : Action α} {f : α → Action β} (ha : Keeps code settled s a Q)
    (hf : ∀ v s', s.heap.Grows settled s'.heap → s'.heap.Fit code → Q v s'.heap →
      Keeps code settled s' (f v) R) : Keeps code settled s (a >>= f) R := by
  unfold Keeps at ha
  show match EStateM.bind a f s with | .ok v s' => _ | .error _ s' => _
  unfold EStateM.bind
  cases hr : a s with
  | error e s' =>
    rw [hr] at ha
    exact ha
  | ok v s' =>
    rw [hr] at ha
    obtain ⟨hg, hfit, hq⟩ := ha
    have h := hf v s' hg hfit hq
    unfold Keeps at h
    cases hr' : f v s' with
    | error e s'' =>
      simp only [hr'] at h ⊢
      exact ⟨hg.trans h.1, h.2⟩
    | ok w s'' =>
      simp only [hr'] at h ⊢
      exact ⟨hg.trans h.1, h.2⟩

/-- What is known of an answer may be weakened. -/
theorem keeps_mono {a : Action α} {Q' : α → Heap → Prop} (ha : Keeps code settled s a Q)
    (h : ∀ v h, Q v h → Q' v h) : Keeps code settled s a Q' := by
  unfold Keeps at ha ⊢
  cases hr : a s with
  | error e s' =>
    rw [hr] at ha
    exact ha
  | ok v s' =>
    rw [hr] at ha
    exact ⟨ha.1, ha.2.1, h _ _ ha.2.2⟩

theorem keeps_heap (hfit : s.heap.Fit code) :
    Keeps code settled s Action.heap fun v h => v = s.heap ∧ h = s.heap :=
  ⟨.refl _ _, hfit, rfl, rfl⟩

/-- Going on with what is there, or refusing, leaves the heap as it is. -/
theorem keeps_orRefuse (hfit : s.heap.Fit code) (a? : Option α) (fault : BuiltinFault) :
    Keeps code settled s (orRefuse a? fault) fun a h => a? = some a ∧ h = s.heap := by
  cases a? with
  | some a => exact keeps_pure hfit ⟨rfl, rfl⟩
  | none => exact keeps_throw hfit fault

theorem keeps_readClock (hfit : s.heap.Fit code) :
    Keeps code settled s readClock fun _ h => h = s.heap :=
  ⟨.refl _ _, hfit, rfl⟩

/-- A change of the heap that is growth and leaves it fit. -/
theorem keeps_modifyHeap {f : Heap → Heap} (hg : s.heap.Grows settled (f s.heap))
    (hfit : (f s.heap).Fit code) :
    Keeps code settled s (modifyHeap f) fun _ h => h = f s.heap :=
  ⟨hg, hfit, rfl⟩

/-- A computation on the heap that is growth and leaves it fit. -/
theorem keeps_onHeap {f : Heap → α × Heap} (hg : s.heap.Grows settled (f s.heap).2)
    (hfit : (f s.heap).2.Fit code) :
    Keeps code settled s (onHeap f) fun v h => v = (f s.heap).1 ∧ h = (f s.heap).2 :=
  ⟨hg, hfit, rfl, rfl⟩

/-- An action that refuses before it changes anything keeps a fit heap if its answers come with
one. -/
theorem keeps_of_comes {P : BuiltinFault → Prop} {T : α → Store → Prop} {a : Action α}
    (hfit : s.heap.Fit code) (ha : Comes s P T a)
    (h : ∀ v s', T v s' →
      s.heap.Grows settled s'.heap ∧ s'.heap.Fit code ∧ Q v s'.heap) :
    Keeps code settled s a Q := by
  unfold Keeps
  cases hr : a s with
  | error fault s' =>
    obtain ⟨rfl, -⟩ := ha.error hr
    exact ⟨.refl _ _, hfit⟩
  | ok v s' => exact h v s' (ha.ok hr)

end Rules

end Action

/-! ## Work on the heap -/

section

variable {code : Value → Prop} {settled : Nat} {changes : Value → Prop} {given hand : List Value}
  {h h' : Heap} {v : Value}

theorem Value.IsScalar.fits (hv : v.IsScalar) : v.Fits code h := by
  cases v with
  | null => trivial
  | datum d =>
    cases d with
    | error id => exact hv.elim
    | _ => trivial
  | _ => exact hv.elim

/-- What fitting values hold fits. -/
theorem Heap.Fit.ready (hfit : h.Fit code) (hhand : ∀ v ∈ hand, v.Fits code h)
    (hv : h.Ready hand v) : v.Fits code h := by
  cases hv with
  | scalar hv => exact hv.fits
  | given hv => exact hhand v hv
  | held _ huv =>
    cases huv with
    | item hv => exact hfit.arrays _ v (Array.mem_toList_iff.mp hv)
    | key he => exact (hfit.maps _ _ he).1
    | entry he => exact (hfit.maps _ _ he).2
    | message i => exact hfit.errors i

/-- With fitting values at hand, work comes to a fit heap and has fitting values at hand. -/
theorem Heap.Works.fits (work : h.Works changes given h' hand) (hfit : h.Fit code)
    (hgiven : ∀ v ∈ given, v.Fits code h) :
    h.Grows settled h' ∧ h'.Fit code ∧ ∀ v ∈ hand, v.Fits code h' := by
  induction work with
  | start => exact ⟨.refl _ _, hfit, hgiven⟩
  | take _ hv ih =>
    obtain ⟨hg, hfit', hhand⟩ := ih
    exact ⟨hg, hfit', List.forall_mem_cons.mpr ⟨hfit'.ready hhand hv, hhand⟩⟩
  | @newArray h' hand _ cell hitems ih =>
    obtain ⟨hg, hfit', hhand⟩ := ih
    have hnew := h'.grows_newArray settled cell
    refine ⟨hg.trans hnew, hfit'.newArray fun v hv => hfit'.ready hhand (hitems v hv), ?_⟩
    exact List.forall_mem_cons.mpr ⟨trivial, fun v hv => (hhand v hv).grow hnew⟩
  | @newMap h' hand _ cell hentries ih =>
    obtain ⟨hg, hfit', hhand⟩ := ih
    have hnew := h'.grows_newMap settled cell
    have hready : ∀ e ∈ cell.entries, e.1.Fits code h' ∧ e.2.Fits code h' := fun e he =>
      ⟨hfit'.ready hhand (hentries e he).1, hfit'.ready hhand (hentries e he).2⟩
    refine ⟨hg.trans hnew, hfit'.newMap hready, ?_⟩
    exact List.forall_mem_cons.mpr ⟨trivial, fun v hv => (hhand v hv).grow hnew⟩
  | @newError h' hand _ cell hmessage ih =>
    obtain ⟨hg, hfit', hhand⟩ := ih
    have hnew := h'.grows_newError settled cell
    have hthere : h'.errors.size < (h'.newError cell).2.errors.size := by simp [Heap.newError]
    refine ⟨hg.trans hnew, hfit'.newError (hfit'.ready hhand hmessage), ?_⟩
    exact List.forall_mem_cons.mpr ⟨hthere, fun v hv => (hhand v hv).grow hnew⟩
  | @modifyArray h' hand _ id f _ hitems ih =>
    obtain ⟨hg, hfit', hhand⟩ := ih
    have hchange := h'.grows_modifyArray settled id f
    refine ⟨hg.trans hchange, hfit'.modifyArray id fun v hv => ?_, fun v hv => ?_⟩
    · exact hfit'.ready hhand (hitems v hv)
    · exact (hhand v hv).grow hchange
  | @modifyMap h' hand _ id f _ hentries ih =>
    obtain ⟨hg, hfit', hhand⟩ := ih
    have hchange := h'.grows_modifyMap settled id f
    refine ⟨hg.trans hchange, hfit'.modifyMap id fun e he => ?_, fun v hv => ?_⟩
    · exact ⟨hfit'.ready hhand (hentries e he).1, hfit'.ready hhand (hentries e he).2⟩
    · exact (hhand v hv).grow hchange

end

namespace Builtin

open ScriptEngine.Action

variable {code : Value → Prop} {settled : Nat} {s : Store}

/-- An argument that is there fits. -/
theorem fits_argument {h : Heap} {args : List Value} (hargs : ∀ v ∈ args, v.Fits code h) (i : Nat) :
    (args[i]?.getD .null).Fits code h := by
  cases ha : args[i]? with
  | none => trivial
  | some v => exact hargs v (List.mem_of_getElem? ha)

/-! ## Methods and properties of any built-in instance -/

/-- Work with fit values leaves a fit heap that has grown, and answers with a fit value. -/
theorem Worked.fits {changes : Value → Prop} {given : List Value} {s' : Store} {v : Value}
    (hworked : Worked changes given s v s') (hfit : s.heap.Fit code)
    (hgiven : ∀ v ∈ given, v.Fits code s.heap) :
    s.heap.Grows settled s'.heap ∧ s'.heap.Fit code ∧ v.Fits code s'.heap := by
  obtain ⟨hand, work, hv⟩ := hworked
  obtain ⟨hg, hfit', hhand⟩ := work.fits hfit hgiven
  exact ⟨hg, hfit', hhand v hv⟩

/-- An instance that was made by such work is there, and of its class. -/
theorem keeps_made {changes : Value → Prop} {given : List Value} {c : BuiltinClass}
    {a : Action Datum} (ha : Settles s (Made changes given c s) a) (hfit : s.heap.Fit code)
    (hgiven : ∀ v ∈ given, v.Fits code s.heap) :
    Keeps code settled s a fun d h => d.Fits h ∧ d.cls = c := by
  refine keeps_of_comes hfit ha fun d s' ⟨hcls, hworked⟩ => ?_
  obtain ⟨hg, hfit', hd⟩ := hworked.fits hfit hgiven
  exact ⟨hg, hfit', hd, hcls⟩

/-- Making an instance of a built-in class keeps the heap fit. -/
theorem keeps_construct (hfit : s.heap.Fit code) (c : BuiltinClass) {args : List Value}
    (hargs : ∀ v ∈ args, v.Fits code s.heap) :
    Keeps code settled s (construct c args) fun d h => d.Fits h ∧ d.cls = c := by
  have hmade : Settles s (Made (fun _ => False) args c s) (construct c args) :=
    comes_construct c (List.Subset.refl args)
  exact keeps_made hmade hfit hargs

theorem keeps_defaultInstance (hfit : s.heap.Fit code) (c : BuiltinClass) :
    Keeps code settled s (defaultInstance c) fun d h => d.Fits h ∧ d.cls = c := by
  have hmade : Settles s (Made (fun _ => False) [] c s) (defaultInstance c) :=
    comes_defaultInstance c
  exact keeps_made hmade hfit (by simp)

theorem keeps_callMethod (hfit : s.heap.Fit code) {receiver : Datum} (h : receiver.Fits s.heap)
    (method : String) {args : List Value} (hargs : ∀ v ∈ args, v.Fits code s.heap) :
    Keeps code settled s (callMethod receiver method args) fun v h => v.Fits code h :=
  keeps_of_comes hfit (comes_callMethod receiver method args s) fun _ _ hworked =>
    hworked.fits hfit (List.forall_mem_cons.mpr ⟨h, hargs⟩)

/-- An answer that is there fits. -/
def FitsIfAny (code : Value → Prop) (v? : Option Value) (h : Heap) : Prop :=
  ∀ v, v? = some v → v.Fits code h

/-- A method that is bound to a fit receiver is a fit value. -/
theorem keeps_bindMethod? (hfit : s.heap.Fit code) {receiver : Datum} (h : receiver.Fits s.heap)
    (method : String) :
    Keeps code settled s (bindMethod? receiver method) (FitsIfAny code) := by
  unfold bindMethod?
  split
  · exact keeps_pure hfit fun v hv => absurd hv (by simp)
  · refine keeps_bind (keeps_onHeap (Heap.grows_fresh _ _) (hfit.of_eq rfl rfl rfl rfl)) ?_
    intro id s' hg hfit' _
    refine keeps_pure hfit' fun v hv => ?_
    simp only [Option.some.injEq] at hv
    subst hv
    exact h.mono hg

/-- A field of a fit receiver is a fit value. -/
theorem fits_field? {h : Heap} (hfit : h.Fit code) {receiver : Datum} (hr : receiver.Fits h)
    (name : String) : FitsIfAny code (field? h receiver name) h := by
  intro v hv
  unfold field? at hv
  split at hv
  · simp at hv
  · split at hv
    · simp only [Option.some.injEq] at hv
      exact hv ▸ hfit.errors _
    · split at hv
      · simp only [Option.some.injEq] at hv
        exact hv ▸ hr
      · simp at hv
  · split at hv
    · simp only [Option.some.injEq] at hv
      exact hv ▸ hr
    · simp at hv

/-- A property of a fit receiver is a fit value. -/
theorem keeps_property? (hfit : s.heap.Fit code) {receiver : Datum} (h : receiver.Fits s.heap)
    (name : String) : Keeps code settled s (property? receiver name) (FitsIfAny code) := by
  refine keeps_bind (keeps_heap hfit) fun heap s' _ hfit' heq => ?_
  obtain ⟨rfl, heq⟩ := heq
  split
  · next value hvalue =>
    refine keeps_pure hfit' fun v hv => ?_
    rw [heq]
    exact fits_field? hfit h name v (hvalue.trans (by simpa using hv))
  -- A field hides a method of the same name.
  · exact keeps_bindMethod? hfit' (heq.symm ▸ h) name

theorem keeps_readTime (hfit : s.heap.Fit code) (unit : String) :
    Keeps code settled s (do
      let nanos ← Action.readClock
      let time ←
        match unit with
        | "hour" => pure (nanos / 1000000000 / 3600)
        | "second" => pure (nanos / 1000000000)
        | "milli" => pure (nanos / 1000000)
        | "micro" => pure (nanos / 1000)
        | "nano" => pure nanos
        | _ => throw .invalidClockUnit
      return Value.number (Float.ofNat time)) fun v h => v.Fits code h := by
  refine keeps_bind (keeps_readClock hfit) fun nanos s' _ hfit' _ => ?_
  dsimp only
  split
  all_goals first
    | exact ⟨.refl _ _, hfit', trivial⟩
    | exact ⟨.refl _ _, hfit'⟩

theorem keeps_clock (hfit : s.heap.Fit code) (args : List Value) :
    Keeps code settled s (clock args) fun v h => v.Fits code h := by
  unfold clock
  dsimp only
  split
  · exact keeps_readTime hfit "milli"
  · exact keeps_readTime hfit "milli"
  · exact keeps_bind (keeps_orRefuse hfit _ _) fun unit s' _ hfit' _ => keeps_readTime hfit' unit

/-- The initializer of a built-in superclass replaces a backing instance and closes a slot. -/
theorem keeps_callNative (hfit : s.heap.Fit code) {action : NativeAction}
    (h : action.Fits code s.heap) {args : List Value} (hargs : ∀ v ∈ args, v.Fits code s.heap) :
    Keeps code settled s (callNative action args) fun v h => v.Fits code h := by
  cases action with
  | clock => exact keeps_clock hfit args
  | method receiver name => exact keeps_callMethod hfit h name hargs
  | emptyInit => exact keeps_pure hfit trivial
  | superInit object c =>
    refine keeps_bind (keeps_construct hfit c hargs) fun native s' hg hfit' ⟨hnative, hcls⟩ => ?_
    -- The slot is closed, which is allowed also where no slot may be opened again.
    have hkeeps : ∀ opens, (s'.heap.object object).Keeps opens
        (((s'.heap.object object).setNative c native).setStatus c.name .initialized) := by
      intro opens
      have hnat : (s'.heap.object object).Keeps opens
          ((s'.heap.object object).setNative c native) := .of_statuses rfl rfl
      exact hnat.trans (Instance.keeps_setStatus _ _ _ (Or.inl rfl))
    refine keeps_bind (keeps_modifyHeap (Heap.grows_modifyObject (hkeeps _))
      (hfit'.modifyObject object rfl (hfit'.fields object) (fun n hn => ?_) ?_ (hkeeps _))) ?_
    · rcases Instance.mem_putNative hn with hn | rfl
      · exact hfit'.natives object n hn
      · exact hnative
    · have hbacked := (hfit'.backed object).setNative hcls (Or.inr h.2)
      exact hbacked.of_natives rfl rfl
    · exact fun _ _ _ hfit'' _ => keeps_pure hfit'' trivial

/-- The backing instances of a new instance, each under its class. -/
theorem keeps_natives (hfit : s.heap.Fit code) (bs : List BuiltinClass) :
    Keeps code settled s (bs.mapM fun b => return (b, ← defaultInstance b)) fun natives h =>
      natives.map (·.1) = bs ∧ ∀ n ∈ natives, n.2.Fits h ∧ n.2.cls = n.1 := by
  induction bs generalizing s with
  | nil => exact keeps_pure hfit ⟨rfl, by simp⟩
  | cons b bs ih =>
    rw [List.mapM_cons]
    refine keeps_bind (Q := fun n h => n.1 = b ∧ n.2.Fits h ∧ n.2.cls = b) ?_
      fun native s₁ hg₁ hfit₁ ⟨hkey, hnative, hcls⟩ => ?_
    · exact keeps_bind (keeps_defaultInstance hfit b) fun _ _ _ hfit' hd =>
        keeps_pure hfit' ⟨rfl, hd⟩
    · refine keeps_bind (ih hfit₁) fun natives s₂ hg₂ hfit₂ ⟨hkeys, hnatives⟩ => ?_
      refine keeps_pure hfit₂ ⟨by rw [List.map_cons, hkey, hkeys], fun n hn => ?_⟩
      rcases List.mem_cons.mp hn with rfl | hn
      · exact ⟨hnative.mono hg₂, hcls.trans hkey.symm⟩
      · exact hnatives n hn

/-- A new instance has the slots of its class, and is the newest in the heap. -/
theorem keeps_newInstance (hfit : s.heap.Fit code) {c : Class} (hc : code (.cls c)) :
    Keeps code settled s (newInstance c) fun id h =>
      s.heap.objects.size ≤ id ∧ id < h.objects.size ∧ (h.object id).cls = c ∧
        (h.object id).statuses = Instance.initialStatuses c := by
  refine keeps_bind (keeps_natives hfit _) fun natives s' hg hfit' ⟨hkeys, hnatives⟩ => ?_
  have hfields : ∀ f ∈ (Instance.create c natives).fields, f.2.Fits code s'.heap := by
    intro f hf
    rw [List.mem_singleton.mp hf]
    trivial
  have hbacked : (Instance.create c natives).Backed (Vouched code s'.heap.objects.size) :=
    Instance.backed_create hkeys fun n hn => (hnatives n hn).2
  refine keeps_mono (keeps_onHeap (Heap.grows_newObject _ _ _)
    (hfit'.newObject hfields (fun n hn => (hnatives n hn).1) hbacked hc)) ?_
  rintro id h ⟨rfl, rfl⟩
  have hobject := Heap.object_newObject s'.heap (Instance.create c natives) s'.heap.objects.size
  rw [if_pos rfl] at hobject
  refine ⟨hg.objects, by simp [Heap.newObject], ?_, ?_⟩
  · exact congrArg Instance.cls hobject
  · exact congrArg Instance.statuses hobject

end Builtin

end ScriptEngine
