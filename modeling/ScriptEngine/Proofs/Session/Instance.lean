import ScriptEngine.Proofs.Evaluator.Answer
import ScriptEngine.Proofs.Session.Play

/-!
# Instances in sessions

Whenever a session calls a class and an instance comes back, the instance is `Made`. The slots of
an instance are found by name, so this is not to say that all of them are initialized. A class with
an initializer of its own checks every slot. A class without one leaves two gaps: a slot whose name
an earlier slot has is never found, and a slot that has been closed can be opened again by the
initializer of a superclass that runs later. Where there is neither, every slot is initialized.
-/

namespace ScriptEngine

open Scope hiding bind

/-! ## What the slots come to -/

/-- Every slot of an instance is the first of its name if no name stands twice among the class and
its superclasses. -/
theorem Made.first_iff {c : Class} {i : Instance} (h : Made c i) :
    (∀ n < i.statuses.length, Instance.First i.statuses n) ↔
      (c.name :: c.superclasses.map (·.name)).Nodup := by
  rw [← h.names, List.nodup_iff_getElem?_ne_getElem?]
  simp only [List.getElem?_map, List.length_map, Instance.First]
  exact ⟨fun hfirst k n hkn hn => hfirst n hn k hkn, fun hne n hn k hkn => hne k n hkn hn⟩

/-- Unless a slot can be opened again, all slots are initialized exactly if the class has an
initializer of its own or the slots have different names. -/
theorem Made.initialized_iff {c : Class} {i : Instance} (h : Made c i)
    (hopens : c.ownInit? = none → ∀ s ∈ c.superclasses, ∀ name, ¬ c.OpensBy s name) :
    (∀ slot ∈ i.statuses, slot.status = .initialized) ↔
      c.ownInit?.isSome = true ∨ (c.name :: c.superclasses.map (·.name)).Nodup := by
  cases hown : c.ownInit? with
  | some init => exact ⟨fun _ => Or.inl rfl, fun _ => h.checked (by rw [hown]; rfl)⟩
  | none =>
    have hopens := hopens hown
    refine ⟨fun hall => Or.inr (h.first_iff.mp fun n hn => ?_), fun hnodup slot hslot => ?_⟩
    -- A slot that is not the first with its name was never found, so it is not initialized.
    · refine Classical.byContradiction fun hnot => ?_
      have hslot := List.getElem?_eq_getElem hn
      have hstatus := h.hidden hown n _ hslot hnot
      rw [hall _ (List.mem_of_getElem? hslot)] at hstatus
      cases hstatus
    -- Every slot is the first with its name, and the one found under a name is done.
    · have hfirst := h.first_iff.mpr (hnodup.resolve_left (by simp))
      obtain ⟨n, hn⟩ := List.mem_iff_getElem?.mp hslot
      have hname : slot.className ∈ c.name :: c.superclasses.map (·.name) :=
        h.names ▸ List.mem_map_of_mem hslot
      have hdone : i.Done slot.className := by
        rcases List.mem_cons.mp hname with heq | hmem
        · exact heq ▸ h.self hown fun s hs => hopens s hs _
        · obtain ⟨s, hs, heq⟩ := List.mem_map.mp hmem
          obtain ⟨before, after, hsplit⟩ := List.append_of_mem hs
          refine heq ▸ h.inherited hown before s after hsplit fun t ht => hopens t ?_ _
          rw [hsplit]
          exact List.mem_append_left _ ht
      exact hdone n slot hn rfl (hfirst n (List.getElem?_eq_some_iff.mp hn).1)

/-! ## What a construct has at hand -/

/-- The operands of a construct that calls a value. -/
def Moment.operands : Moment → List Expr
  | .evaluating (.call _ callee _ arguments) => callee :: arguments
  | .evaluating (.binary _ left _ right) => [left, right]
  | .evaluating (.unary _ _ operand) => [operand]
  | .evaluating (.getItem _ object _ index) => [object, index]
  | .evaluating (.setItem _ object index _ value) => [object, index, value]
  | .executing (.throw _ value) => [value]
  | _ => []

/-- The values that a construct can come to before it calls one of them, and the machine then: it
evaluates operands, follows import references and reads properties. -/
inductive Evaluator.Gathers (ev : Evaluator) (operands : List Expr) (m : Machine) :
    List Value → Machine → Prop where
  | start : Gathers ev operands m [] m
  | operand {vs : List Value} {m₁ m₂ : Machine} {e : Expr} {v : Value}
      (before : Gathers ev operands m vs m₁) (he : e ∈ operands)
      (hv : ev.evaluate e m₁ = .ok v m₂) : Gathers ev operands m (v :: vs) m₂
  | target {vs : List Value} {m₁ m₂ : Machine} {v v' : Value}
      (before : Gathers ev operands m vs m₁) (hmem : v ∈ vs)
      (hv : Run.deref v m₁ = .ok v' m₂) : Gathers ev operands m (v' :: vs) m₂
  | property {vs : List Value} {m₁ m₂ : Machine} {v v' : Value} {name : Token}
      (before : Gathers ev operands m vs m₁) (hmem : v ∈ vs)
      (hv : Run.getProperty v name m₁ = .ok v' m₂) : Gathers ev operands m (v' :: vs) m₂

namespace Evaluator.Gathers

variable {ev : Evaluator} {operands : List Expr} {m m₁ m₂ : Machine} {vs : List Value}

/-- Evaluating more operands one after the other. -/
theorem values (es : List Expr) : ∀ {vs : List Value} {m₁ : Machine} {args : List Value},
    Gathers ev operands m vs m₁ → (∀ e ∈ es, e ∈ operands) → ev.values es m₁ = .ok args m₂ →
    ∃ vs', Gathers ev operands m vs' m₂ ∧ vs ⊆ vs' ∧ args ⊆ vs' := by
  induction es with
  | nil =>
    intro vs m₁ args h _ hargs
    cases hargs
    exact ⟨vs, h, List.Subset.refl _, List.nil_subset _⟩
  | cons e es ih =>
    intro vs m₁ args h hes hargs
    obtain ⟨first, m₃, hfirst, hargs⟩ := Run.bind_ok hargs
    obtain ⟨v, m₄, hv, hderef⟩ := Run.bind_ok hfirst
    obtain ⟨rest, m₅, hrest, hargs⟩ := Run.bind_ok hargs
    cases hargs
    have hgathers := (h.operand (hes e List.mem_cons_self) hv).target List.mem_cons_self hderef
    obtain ⟨vs', h', hsub, hargs⟩ :=
      ih hgathers (fun e' he' => hes e' (List.mem_cons_of_mem e he')) hrest
    refine ⟨vs', h', fun v' hv' => hsub ?_, ?_⟩
    · exact List.mem_cons_of_mem first (List.mem_cons_of_mem v hv')
    · exact List.cons_subset.mpr ⟨hsub List.mem_cons_self, hargs⟩

/-- A call expression that gives a value has called one of the values that it had at hand. -/
theorem call {callee : Expr} {paren : Token} {arguments : List Expr} {v : Value}
    (h : ev.call callee paren arguments m = .ok v m₂) :
    ∃ vs m₁ active? f args m₃, Gathers ev (callee :: arguments) m vs m₁ ∧ f ∈ vs ∧ args ⊆ vs ∧
      ev.callTarget f args paren { m₁ with active? := active? } = .ok v m₃ ∧
      m₂.store.heap.objects = m₃.store.heap.objects := by
  obtain ⟨f, m₃, hf, h⟩ := Run.bind_ok h
  obtain ⟨args, m₄, hargs, h⟩ := Run.bind_ok h
  have hstart : Gathers ev (callee :: arguments) m [f] m₃ :=
    Gathers.start.operand List.mem_cons_self hf
  obtain ⟨vs, hvs, hsub, hargs⟩ :=
    hstart.values arguments (fun e he => List.mem_cons_of_mem _ he) hargs
  cases f with
  | imported id =>
    -- The reference is followed first, and what it leads to is called in another module.
    obtain ⟨target, m₅, htarget, h⟩ := Run.bind_ok h
    obtain ⟨heap, m₆, hheap, h⟩ := Run.bind_ok h
    cases hheap
    obtain ⟨result, m₇, hresult, h⟩ := Run.bind_ok h
    obtain ⟨_, m₈, hmodify, h⟩ := Run.bind_ok h
    cases h
    cases hmodify
    unfold Run.inModule at hresult
    dsimp only at hresult
    split at hresult
    · next m₉ hcall =>
      cases hresult
      refine ⟨target :: vs, m₅, some (m₅.store.heap.importCell id).home, target, args, m₉,
        hvs.target (hsub List.mem_cons_self) htarget, List.mem_cons_self,
        fun a ha => List.mem_cons_of_mem _ (hargs ha), ?_, rfl⟩
      rwa [callValue_eq ev (derefUpTo_ne_imported _ htarget)] at hcall
    · cases hresult
  | _ => exact ⟨vs, m₄, m₄.active?, _, args, m₂, hvs, hsub List.mem_cons_self, hargs, h, rfl⟩

/-- So has a method call of an instance. -/
theorem callMethod {id : ObjectId} {method : String} {args : List Value} {token : Token} {v : Value}
    (hvs : Gathers ev operands m vs m₁) (hmem : .object id ∈ vs) (hargs : args ⊆ vs)
    (h : ev.callMethod (.object id) method args token m₁ = .ok v m₂) :
    ∃ vs' m₃ f, Gathers ev operands m vs' m₃ ∧ f ∈ vs' ∧ args ⊆ vs' ∧
      ev.callTarget f args token m₃ = .ok v m₂ := by
  obtain ⟨f, m₃, hf, h⟩ := Run.bind_ok h
  have hvs' := hvs.property hmem hf
  have hargs' : args ⊆ f :: vs := fun a ha => List.mem_cons_of_mem f (hargs ha)
  -- What the property is bound to may be an import reference, which is followed once more.
  unfold Evaluator.callValue at h
  split at h
  · obtain ⟨target, m₄, htarget, h⟩ := Run.bind_ok h
    exact ⟨target :: _, m₄, target, hvs'.target List.mem_cons_self htarget, List.mem_cons_self,
      fun a ha => List.mem_cons_of_mem target (hargs' ha), h⟩
  · exact ⟨f :: vs, m₃, f, hvs', List.mem_cons_self, hargs', h⟩

end Evaluator.Gathers

section

variable {w : World} {m m' : Machine} {home : ModuleId} {stack : Stack} {moment : Moment}

/-- The uses of an expression are among those of the list that it stands in. -/
theorem exprUses_subset {e : Expr} {es : List Expr} (h : e ∈ es) :
    exprUses stack e ⊆ exprsUses stack es := by
  induction es with
  | nil => exact absurd h List.not_mem_nil
  | cons first es ih =>
    rcases List.mem_cons.mp h with rfl | h
    · exact List.subset_append_left _ _
    · exact List.subset_append_of_subset_right _ (ih h)

theorem exprMarks_subset {e : Expr} {es : List Expr} (h : e ∈ es) :
    exprMarks e ⊆ exprsMarks es := by
  rw [Parser.exprsMarks_eq]
  exact fun k hk => List.mem_flatMap_of_mem h hk

/-- The uses and marks of the operands are among those of the moment. -/
theorem operands_subset (stack : Stack) (moment : Moment) :
    exprsUses stack moment.operands ⊆ moment.uses stack ∧
      exprsMarks moment.operands ⊆ moment.marks := by
  unfold Moment.operands
  split <;> simp [exprsUses, exprsMarks, Moment.uses, Moment.marks, exprUses, exprMarks, stmtUses,
    stmtMarks]

/-- The operands of a moment that is ready are ready themselves. -/
theorem Ready.operand (hr : Ready 0 w m home stack (moment.uses stack) moment.marks) {e : Expr}
    (he : e ∈ moment.operands) : Ready 0 w m home stack (exprUses stack e) (exprMarks e) := by
  obtain ⟨huses, hmarks⟩ := operands_subset stack moment
  exact hr.part (fun u hu => huses (exprUses_subset he hu))
    fun k hk => hmarks (exprMarks_subset he hk)

/-- Whatever comes of operands that are ready is as it should be. -/
theorem Evaluator.Gathers.sound_of {operands : List Expr} (hs : Sound 0 w m)
    (hready : ∀ e ∈ operands, Ready 0 w m home stack (exprUses stack e) (exprMarks e))
    {depth : Nat} {vs : List Value} (h : (evaluatorUpTo depth).Gathers operands m vs m') :
    ∃ w', Advances 0 m.SamePlace w m w' m' ∧ ∀ v ∈ vs, ValueOk w' m' v := by
  -- Each step adds one value and goes on from a machine that has come back to its place.
  have hadd : ∀ {w₁ w₂ : World} {m₁ m₂ : Machine} {vs : List Value} {v : Value},
      Advances 0 m.SamePlace w m w₁ m₁ → (∀ v ∈ vs, ValueOk w₁ m₁ v) →
      Advances 0 m₁.SamePlace w₁ m₁ w₂ m₂ → ValueOk w₂ m₂ v →
      Advances 0 m.SamePlace w m w₂ m₂ ∧ ∀ v' ∈ v :: vs, ValueOk w₂ m₂ v' := by
    intro w₁ w₂ m₁ m₂ vs v h₁ hvs h₂ hv
    refine ⟨⟨h₁.moves.trans h₂.moves, h₂.sound, h₁.kept.trans h₂.kept⟩, fun v' hv' => ?_⟩
    rcases List.mem_cons.mp hv' with rfl | hv'
    · exact hv
    · exact (hvs v' hv').mono h₂.moves
  induction h with
  | start => exact ⟨w, ⟨.refl 0 w m, hs, .refl m⟩, by simp⟩
  | operand before he hv ih =>
    obtain ⟨w₁, h₁, hvs⟩ := ih
    have htracks := (tracks_evaluatorUnder depth).evaluate ((hready _ he).after h₁)
    rw [← evaluatorUnder_quiet] at hv
    obtain ⟨w₂, h₂, hv₂⟩ := htracks.ok hv
    exact ⟨w₂, hadd h₁ hvs h₂ hv₂⟩
  | target before hmem hv ih =>
    obtain ⟨w₁, h₁, hvs⟩ := ih
    obtain ⟨w₂, h₂, hv₂⟩ := (tracks_deref h₁.sound (hvs _ hmem)).ok hv
    exact ⟨w₂, hadd h₁ hvs h₂ hv₂⟩
  | property before hmem hv ih =>
    obtain ⟨w₁, h₁, hvs⟩ := ih
    obtain ⟨w₂, h₂, hv₂⟩ := (tracks_getProperty h₁.sound (hvs _ hmem) _).ok hv
    exact ⟨w₂, hadd h₁ hvs h₂ hv₂⟩

/-- Whatever a construct has at hand is as it should be. -/
theorem Evaluator.Gathers.sound (hr : Ready 0 w m home stack (moment.uses stack) moment.marks)
    {depth : Nat} {vs : List Value}
    (h : (evaluatorUpTo depth).Gathers moment.operands m vs m') :
    ∃ w', Advances 0 m.SamePlace w m w' m' ∧ ∀ v ∈ vs, ValueOk w' m' v :=
  h.sound_of hr.sound fun _ he => hr.operand he

end

namespace Session

/-- Whenever a construct calls a class that it has at hand, with values that it has at hand and as
code of whatever module, and gets an instance back, the instance is made. Unless the initializer of
a superclass can open a slot again, all slots are initialized exactly if the class has an
initializer of its own or no two slots have the same name. -/
theorem instances_made (files : FileSystem) (clock depth : Nat) (steps : List Step) :
    Throughout files clock depth steps fun moment m =>
      ∀ depth vs m₁ active? c args paren v m₂,
        (evaluatorUpTo depth).Gathers moment.operands m vs m₁ → .cls c ∈ vs →
        (∀ a ∈ args, a ∈ vs) →
        (evaluatorUpTo depth).callTarget (.cls c) args paren { m₁ with active? := active? } =
          .ok v m₂ →
        ∃ id, v = .object id ∧ Made c (m₂.store.heap.object id) ∧
          ((c.ownInit? = none → ∀ s ∈ c.superclasses, ∀ name, ¬ c.OpensBy s name) →
            ((∀ slot ∈ (m₂.store.heap.object id).statuses, slot.status = .initialized) ↔
              c.ownInit?.isSome = true ∨ (c.name :: c.superclasses.map (·.name)).Nodup)) := by
  obtain ⟨w, -, hforeseen, -⟩ := throughout_foreseen files clock depth steps
  refine hforeseen.mono fun moment m hm => ?_
  intro depth vs m₁ active? c args paren v m₂ hgathers hc hargs hcall
  obtain ⟨w₀, -, -, home, stack, hr⟩ := hm
  obtain ⟨w₁, h₁, hvs⟩ := hgathers.sound hr
  -- The class may belong to another module, which is the active one during the call.
  have hplace : Moves 0 w₁ m₁ w₁ { m₁ with active? := active? } := .of_same w₁ ⟨rfl, rfl, rfl, rfl⟩
  rw [← evaluatorUnder_quiet] at hcall
  have htracks := tracks_callClass (tracks_evaluatorUnder depth)
    (h₁.sound.place active? m₁.current) (ClassOk.mono (hvs _ hc) hplace)
    (fun a ha => (hvs a (hargs a ha)).mono hplace) paren
  obtain ⟨w₂, -, -, id, rfl, hmade⟩ := htracks.ok hcall
  exact ⟨id, rfl, hmade, hmade.initialized_iff⟩

/-- Two programs that call a class and get an instance with a slot that is not initialized: in the
first, two superclasses have the same name; in the second, the initializer of one superclass opens
the slot of another one that has been initialized before. -/
theorem slots_left_open :
    Prod.map id (fun s => (s.machine.store.heap.object 0).statuses)
      (runUpTo 16 (start ⟨[], []⟩ 0)
        "class B \x7b\x7d class A extends B, B \x7b\x7d var x = A();") =
      (.ok, [⟨"A", .initialized⟩, ⟨"B", .initialized⟩, ⟨"B", .notInitialized⟩]) ∧
    Prod.map id (fun s => (s.machine.store.heap.object 0).statuses)
      (runUpTo 16 (start ⟨[], []⟩ 0)
        ("class Q \x7b init() \x7b\x7d \x7d " ++
          "class P extends Q \x7b init() \x7b super(Q).init; \x7d \x7d " ++
          "class C extends P, Q \x7b\x7d var x = C();")) =
      (.ok, [⟨"C", .initialized⟩, ⟨"P", .initialized⟩, ⟨"Q", .initializing⟩]) := by
  decide +kernel

end Session

end ScriptEngine
