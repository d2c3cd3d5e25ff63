import ScriptEngine.Proofs.Evaluator.Answer
import ScriptEngine.Proofs.Evaluator.Sparing
import ScriptEngine.Proofs.Evaluator.Visit

/-!
# Which moments close a slot

A slot is closed in four ways: a call of an initializer of the program comes back, the native
initializer of a built-in superclass comes back, a superclass is skipped while the superclasses of a
class without an initializer are initialized, or a superclass of the program is asked for an
initializer that it does not declare. The last of these closes the slot whether or not what is
answered is ever called.

All of them happen at a moment of the run: the evaluation of a call, of an operator or index form,
of a superclass access, or a `throw`. `Starts` follows such a moment from its beginning to the calls
that it leads to, and `Slot.ClosesAt` says that the slot is closed in one of the four ways. That
there is no other way is `traced_evaluateStep` and `traced_executeStep`.
-/

namespace ScriptEngine

/-- What the evaluator does for a call: it calls a value, runs a function of the program, or
initializes one superclass of a new instance. -/
inductive Activity where
  | call (callee : Value) (args : List Value) (paren : Token)
  | function (f : Function) (args : List Value)
  | superclass (id : ObjectId) (args : List Value) (paren : Token) (s : Superclass)

/-- A moment in a machine leads to an activity that starts in another machine, apart from the
activities of the parts that are evaluated meanwhile. -/
inductive Starts (ev : Evaluator) (m : Machine) : Moment → Activity → Machine → Prop
  | call {callee : Expr} {arguments : List Expr} {f : Value} {args : List Value} {m₁ m₂ : Machine}
      (id : ExprId) (paren : Token) (hf : ev.evaluate callee m = .ok f m₁)
      (hlocal : ∀ i, f ≠ .imported i) (hargs : ev.values arguments m₁ = .ok args m₂) :
      Starts ev m (.evaluating (.call id callee paren arguments)) (.call f args paren) m₂
  | imported {callee : Expr} {arguments : List Expr} {i : ImportId} {target : Value}
      {args : List Value} {m₁ m₂ m₃ : Machine} (id : ExprId) (paren : Token)
      (hf : ev.evaluate callee m = .ok (.imported i) m₁)
      (hargs : ev.values arguments m₁ = .ok args m₂)
      (htarget : Run.deref (.imported i) m₂ = .ok target m₃) :
      Starts ev m (.evaluating (.call id callee paren arguments)) (.call target args paren)
        { m₃ with active? := some (m₃.store.heap.importCell i).home }
  | operator {e : Expr} {op : Operation} {id : ObjectId} {method : String} {f target : Value}
      {m₁ m₂ m₃ : Machine} (happlies : Applies ev m e op (.object id) m₁)
      (hd : op.Dispatches m₁.store.heap (.object id) method)
      (hread : Run.getProperty (.object id) (Token.named method op.token.line) m₁ = .ok f m₂)
      (htarget : Run.deref f m₂ = .ok target m₃) :
      Starts ev m (.evaluating e) (.call target op.args op.token) m₃
  | message {e : Expr} {id : ObjectId} {f target : Value} {m₁ m₂ m₃ : Machine} (keyword : Token)
      (hvalue : ev.value e m = .ok (.object id) m₁)
      (herror : ((m₁.store.heap.object id).native? .error).isSome = true)
      (hread : Run.getProperty (.object id) (Token.named "getMessage" keyword.line) m₁ = .ok f m₂)
      (htarget : Run.deref f m₂ = .ok target m₃) :
      Starts ev m (.executing (.throw keyword e)) (.call target [] keyword) m₃
  | function {moment : Moment} {f : Function} {args : List Value} {paren : Token} {m₁ : Machine}
      (hcall : Starts ev m moment (.call (.function f) args paren) m₁)
      (harity : args.length ≤ f.arity) : Starts ev m moment (.function f args) m₁
  | ownInit {moment : Moment} {c : Class} {args : List Value} {paren : Token} {id : ObjectId}
      {init bound : Function} {m₁ m₂ m₃ : Machine}
      (hcall : Starts ev m moment (.call (.cls c) args paren) m₁) (harity : args.length ≤ c.arity)
      (hnew : Run.action paren (Builtin.newInstance c) m₁ = .ok id m₂)
      (hown : c.ownInit? = some init)
      (hbound : Run.bindMethod init (.object id) m₂ = .ok bound m₃) :
      Starts ev m moment (.function bound args) m₃
  | superclass {moment : Moment} {c : Class} {args : List Value} {paren : Token} {id : ObjectId}
      {before after : List Superclass} {s : Superclass} {m₁ m₂ m₃ : Machine}
      (hcall : Starts ev m moment (.call (.cls c) args paren) m₁) (harity : args.length ≤ c.arity)
      (hnew : Run.action paren (Builtin.newInstance c) m₁ = .ok id m₂) (hown : c.ownInit? = none)
      (hsplit : c.superclasses.reverse = before ++ s :: after)
      (hbefore : ev.initSuperclasses id args paren before m₂ = .ok () m₃) :
      Starts ev m moment (.superclass id args paren s) m₃
  | superInit {moment : Moment} {id : ObjectId} {args : List Value} {paren : Token} {parent : Class}
      {init bound : Function} {m₁ m₂ m₃ : Machine}
      (hsuper : Starts ev m moment (.superclass id args paren (.user parent)) m₁)
      (hown : parent.ownInit? = some init)
      (hstatus : Evaluator.setStatus id parent.name .initializing m₁ = .ok () m₂)
      (hbound : Run.bindMethod init (.object id) m₂ = .ok bound m₃)
      (harity : args.length ≤ bound.arity) : Starts ev m moment (.function bound args) m₃

/-- A call of an initializer of the program comes back, and it closes the slot: it is bound to the
instance and declared by the superclass, and no earlier slot of the instance has the same name. -/
structure Slot.Completes (slot : Slot) (ev : Evaluator) (f : Function) (args : List Value)
    (m : Machine) : Prop where
  isInitializer : f.isInitializer = true
  owner : f.owner? = some slot.name
  comesBack : ∃ v m', ev.callFunction f args m = .ok v m' ∧
    m'.frames.local? f.closure "this" = some (.object slot.object) ∧
    Instance.First (m'.store.heap.object slot.object).statuses (slot.position + 1)

/-- The slot is closed at a moment, in one of four ways. -/
inductive Slot.ClosesAt (slot : Slot) : Moment → Machine → Prop
  /-- A call of an initializer of the program comes back. -/
  | called {moment : Moment} {m m₁ : Machine} {levels : Nat} {f : Function} {args : List Value}
      (hstarts : Starts (evaluatorUpTo levels) m moment (.function f args) m₁)
      (hcompletes : slot.Completes (evaluatorUpTo levels) f args m₁) : slot.ClosesAt moment m
  /-- A call of the initializer of a built-in superclass comes back. -/
  | builtin {moment : Moment} {m m₁ m₂ : Machine} {levels : Nat} {f : NativeFunction}
      {args : List Value} {paren : Token} {b : BuiltinClass} {v : Value}
      (hstarts : Starts (evaluatorUpTo levels) m moment (.call (.native f) args paren) m₁)
      (haction : f.action = .superInit slot.object b) (hname : b.name = slot.name)
      (hcall : (evaluatorUpTo levels).callTarget (.native f) args paren m₁ = .ok v m₂) :
      slot.ClosesAt moment m
  /-- A new instance is made of a class without an initializer, and the superclass is skipped: it
  is a built-in class or has no initializer of its own either. -/
  | skipped {moment : Moment} {m m₁ : Machine} {levels : Nat} {args : List Value} {paren : Token}
      {s : Superclass}
      (hstarts : Starts (evaluatorUpTo levels) m moment (.superclass slot.object args paren s) m₁)
      (hname : s.name = slot.name) (hown : ∀ parent, s = .user parent → parent.ownInit? = none) :
      slot.ClosesAt moment m
  /-- The superclass is asked for an initializer that it does not declare. -/
  | asked {m : Machine} {id : ExprId} {keyword className method : Token}
      (hasks : Evaluator.AsksUndeclared slot m id className method) :
      slot.ClosesAt (.evaluating (.super id keyword className method)) m

/-- If the slot is closed in the end, then it was closed at the beginning, or there is the cause, or
the run visits a moment that closes it. -/
abbrev Slot.Traced {α : Type} (slot : Slot) (cause : Prop) (x : Observer → Run α) (m : Machine) :
    Prop :=
  ScriptEngine.Traced slot.Closed slot.ClosesAt cause x m

section

variable {α : Type} {slot : Slot} {cause : Prop} {m : Machine}

/-- A computation that spares the slot needs no cause. -/
theorem Slot.traced_spares {x : Run α} (hx : Run.Spares slot x) :
    slot.Traced cause (fun _ => x) m :=
  traced_basic fun hk => Or.inl (hx m hk)

/-- What leaves the instances alone closes no slot. -/
theorem Slot.traced_of_objects {x : Run α}
    (hx : ∀ m, (Run.left (x m)).store.heap.objects = m.store.heap.objects) :
    slot.Traced cause (fun _ => x) m :=
  traced_spares fun m h => closed_of_objects (hx m) h

theorem Slot.traced_plain {x : Run α} (hx : Run.Plain x) : slot.Traced cause (fun _ => x) m :=
  traced_of_objects hx.objects

theorem Slot.traced_throw (halt : Halt) : slot.Traced cause (fun _ => (throw halt : Run α)) m :=
  traced_plain (Run.plain_throw halt)

theorem Slot.traced_pure (a : α) : slot.Traced cause (fun _ => (pure a : Run α)) m :=
  traced_plain (Run.plain_pure a)

/-- A check that fails ends the computation, whatever stands behind it. -/
theorem Slot.traced_failAt_bind {β : Type} (token : Token) (c : Cause) (f : Observer → β → Run α) :
    slot.Traced cause (fun o => Run.failAt token c >>= f o) m :=
  (traced_throw (.failed (.located c token))).of_eq rfl fun _ => rfl

end

/-- The parts of a program close the slot at moments only. -/
structure TracedUpTo (slot : Slot) (levels : Nat) : Prop where
  evaluate : ∀ {cause m} e, slot.Traced cause (fun o => (evaluatorUnder o levels).evaluate e) m
  execute : ∀ {cause m} s, slot.Traced cause (fun o => (evaluatorUnder o levels).execute s) m

namespace Evaluator

open Run

/-- The end of an initializer always comes back. It changes no frame and no name of a slot. -/
theorem finishInit_ok (f : Function) (result : Value) (m : Machine) :
    ∃ v m', finishInit f result m = .ok v m' ∧ m'.frames = m.frames ∧
      ∀ k, (m'.store.heap.object k).statuses.map (·.className) =
        (m.store.heap.object k).statuses.map (·.className) := by
  unfold finishInit
  rw [get_bind]
  cases m.frames.local? f.closure "this" with
  | none => exact ⟨result, m, rfl, rfl, fun _ => rfl⟩
  | some this =>
    cases this with
    | object id =>
      cases f.owner? with
      | some owner =>
        refine ⟨_, _, rfl, rfl, fun k => ?_⟩
        show ((m.store.heap.modifyObject id fun i =>
          i.setStatus owner .initialized).object k).statuses.map (·.className) = _
        rw [Heap.object_modifyObject]
        split
        · exact Instance.updateSlot_names _ _ _
        · rfl
      | none => exact ⟨_, m, rfl, rfl, fun _ => rfl⟩
    | _ => exact ⟨_, m, rfl, rfl, fun _ => rfl⟩

/-- A call that passes the check has no more arguments than parameters, and the check changes
nothing. -/
theorem checkArity_ok {arity got : Nat} {paren : Token} {m m' : Machine}
    (h : checkArity arity got paren m = .ok () m') : got ≤ arity ∧ m = m' := by
  unfold checkArity at h
  split at h
  · cases h
  · next hle =>
    cases h
    exact ⟨Nat.le_of_not_gt hle, rfl⟩

open Slot (traced_spares traced_of_objects traced_plain traced_throw traced_pure traced_failAt_bind)

variable {slot : Slot} {levels : Nat} {cause : Prop} {m m₀ : Machine} {moment : Moment}

section Parts

variable (h : TracedUpTo slot levels)
include h

/-! ## Statements in sequence -/

/-- Statements in sequence close the slot at their moments only. -/
theorem traced_runAll (body : List Stmt) :
    ∀ {m}, slot.Traced cause (fun o => (evaluatorUnder o levels).runAll body) m := by
  induction body with
  | nil => exact traced_pure _
  | cons s rest ih =>
    intro m
    refine traced_bind (h.execute s) fun flow m' _ => ?_
    cases flow with
    | normal => exact ih
    | returned value => exact traced_pure _

theorem traced_runIn (frame : FrameId) (body : List Stmt) :
    slot.Traced cause (fun o => (evaluatorUnder o levels).runIn frame body) m :=
  traced_inFrame frame (traced_runAll h body)

theorem traced_runBlock (body : List Stmt) :
    slot.Traced cause (fun o => (evaluatorUnder o levels).runBlock body) m :=
  traced_bind (traced_plain (plain_childFrame _)) fun _ _ _ => traced_runIn h _ body

/-! ## Calls -/

/-- A call of a function closes the slot by itself only if it is a call of an initializer, at its
end. -/
theorem traced_callFunction {f : Function} {args : List Value}
    (hend : slot.Completes (evaluatorUpTo levels) f args m → cause) :
    slot.Traced cause (fun o => (evaluatorUnder o levels).callFunction f args) m := by
  refine traced_bind (traced_plain (plain_newFrame _ _)) fun frame m₁ hframe => ?_
  refine traced_bind (traced_inModule _ (traced_runIn h _ _)) fun flow m₂ hflow => ?_
  rw [evaluatorUnder_quiet] at hflow
  have hcall : (evaluatorUpTo levels).callFunction f args m = _ :=
    (bind_of_ok hframe).trans (bind_of_ok hflow)
  by_cases hinit : f.isInitializer = true
  · simp only [hinit, if_true] at hcall ⊢
    refine traced_basic fun hclosed => ?_
    rcases closed_finishInit hclosed with hbefore | ⟨hthis, howner, hfirst⟩
    · exact Or.inl hbefore
    · obtain ⟨v, m', hfinish, hframes, hnames⟩ := finishInit_ok f _ m₂
      refine Or.inr (hend ⟨hinit, howner, v, m', hcall.trans hfinish, hframes ▸ hthis, ?_⟩)
      exact (Instance.first_congr (hnames slot.object) _).mpr hfirst
  · simp only [if_neg hinit]
    exact traced_pure _

/-- Initializing a superclass closes the slot by itself only if the superclass is skipped. -/
theorem traced_initSuperclass {id : ObjectId} {args : List Value} {paren : Token} {s : Superclass}
    (hstarts : Starts (evaluatorUpTo levels) m₀ moment (.superclass id args paren s) m) :
    slot.Traced (slot.ClosesAt moment m₀)
      (fun o => (evaluatorUnder o levels).initSuperclass id args paren s) m := by
  have hskip : ∀ {m₁ : Machine}, (∀ parent, s = .user parent → parent.ownInit? = none) →
      slot.Traced (slot.ClosesAt moment m₀) (fun _ => setStatus id s.name .initialized) m₁ := by
    refine fun hown => traced_basic fun hclosed => ?_
    rcases closed_setStatus hclosed with hbefore | ⟨rfl, hname, -⟩
    · exact Or.inl hbefore
    · exact Or.inr (.skipped hstarts hname hown)
  cases s with
  | builtin b =>
    refine traced_bind (traced_spares (spares_initializing _ _)) fun _ m₁ _ => ?_
    exact hskip fun parent heq => by cases heq
  | user parent =>
    cases hown : parent.ownInit? with
    | none =>
      have heq : ∀ ev : Evaluator, ev.initSuperclass id args paren (.user parent) =
          setStatus id parent.name .initialized := by
        intro ev
        simp only [initSuperclass, Superclass.hasOwnInit, hown]
        rfl
      simp only [heq]
      refine hskip fun parent' hparent => ?_
      cases hparent
      exact hown
    | some init =>
      have heq : ∀ ev : Evaluator, ev.initSuperclass id args paren (.user parent) = (do
          setStatus id parent.name .initializing
          let bound ← bindMethod init (.object id)
          checkArity bound.arity args.length paren
          let _ ← ev.callFunction bound args) := by
        intro ev
        simp only [initSuperclass, Superclass.hasOwnInit, hown]
        rfl
      simp only [heq]
      refine traced_bind (traced_spares (spares_initializing _ _)) fun _ m₁ hstatus => ?_
      refine traced_bind (traced_plain (plain_bindMethod _ _)) fun bound m₂ hbound => ?_
      refine traced_bind (traced_plain (plain_checkArity _ _ _)) fun _ m₃ harity => ?_
      obtain ⟨hle, rfl⟩ := checkArity_ok harity
      refine traced_bind (traced_callFunction h fun hcompletes => ?_) fun _ _ _ => traced_pure _
      exact .called (.superInit hstarts hown hstatus hbound hle) hcompletes

/-- Initializing superclasses one after the other, each in the machine that those before it
leave. -/
theorem traced_initSuperclasses {id : ObjectId} {args : List Value} {paren : Token} :
    ∀ {supers : List Superclass} {m : Machine},
      (∀ before s after m', supers = before ++ s :: after →
        (evaluatorUpTo levels).initSuperclasses id args paren before m = .ok () m' →
        Starts (evaluatorUpTo levels) m₀ moment (.superclass id args paren s) m') →
      slot.Traced (slot.ClosesAt moment m₀)
        (fun o => (evaluatorUnder o levels).initSuperclasses id args paren supers) m := by
  intro supers
  induction supers with
  | nil => exact fun _ => traced_pure _
  | cons s rest ih =>
    intro m hstarts
    refine traced_bind (traced_initSuperclass h (hstarts [] s rest m rfl rfl)) fun _ m₁ hfirst => ?_
    rw [evaluatorUnder_quiet] at hfirst
    refine ih fun before s' after m' hsplit hbefore => ?_
    refine hstarts (s :: before) s' after m' (by rw [hsplit]; rfl) ?_
    exact (bind_of_ok hfirst).trans hbefore

/-- A new instance closes the slot by a call of an initializer that the moment leads to. -/
theorem traced_instantiate {c : Class} {args : List Value} {paren : Token}
    (hstarts : Starts (evaluatorUpTo levels) m₀ moment (.call (.cls c) args paren) m)
    (harity : args.length ≤ c.arity) :
    slot.Traced (slot.ClosesAt moment m₀)
      (fun o => (evaluatorUnder o levels).instantiate c args paren) m := by
  refine traced_bind (traced_spares (spares_newInstance _ _)) fun id m₁ hnew => ?_
  cases hown : c.ownInit? with
  | some init =>
    refine traced_bind (traced_plain (plain_bindMethod _ _)) fun bound m₂ hbound => ?_
    refine traced_bind (traced_callFunction h fun hcompletes => ?_) fun _ m₃ _ => ?_
    · exact .called (.ownInit hstarts harity hnew hown hbound) hcompletes
    · refine traced_plain (plain_bind plain_heap fun _ => ?_)
      split
      · exact plain_failAt _ _
      · exact plain_pure _
  | none =>
    refine traced_bind (traced_initSuperclasses h fun before s after m' hsplit hbefore => ?_)
      fun _ _ _ => traced_pure _
    exact .superclass hstarts harity hnew hown hsplit hbefore

/-- Whatever a moment calls closes the slot only in one of the four ways. -/
theorem traced_callTarget {callee : Value} {args : List Value} {paren : Token}
    (hstarts : Starts (evaluatorUpTo levels) m₀ moment (.call callee args paren) m) :
    slot.Traced (slot.ClosesAt moment m₀)
      (fun o => (evaluatorUnder o levels).callTarget callee args paren) m := by
  cases callee with
  | function f =>
    refine traced_bind (traced_plain (plain_checkArity _ _ _)) fun _ m₁ harity => ?_
    obtain ⟨hle, rfl⟩ := checkArity_ok harity
    exact traced_callFunction h fun hcompletes => .called (.function hstarts hle) hcompletes
  | native f =>
    refine traced_bind (traced_plain (plain_checkArity _ _ _)) fun _ m₁ harity => ?_
    obtain ⟨hle, rfl⟩ := checkArity_ok harity
    refine traced_basic fun hclosed => ?_
    rcases closed_callNative hclosed with hbefore | ⟨b, v, m', haction, hname, hcall⟩
    · exact Or.inl hbefore
    · exact Or.inr (.builtin hstarts haction hname ((bind_of_ok harity).trans hcall))
  | cls c =>
    refine traced_bind (traced_plain (plain_checkArity _ _ _)) fun _ m₁ harity => ?_
    obtain ⟨hle, rfl⟩ := checkArity_ok harity
    exact traced_instantiate h hstarts hle
  | builtinClass c =>
    refine traced_plain (plain_bind (plain_checkArity _ _ _) fun _ => ?_)
    exact plain_bind (plain_action _ (Builtin.spares_construct _ _)) fun _ => plain_pure _
  | _ => exact traced_plain (plain_failAt _ _)

/-- A method of an instance is read like a property, and what is found is called. -/
theorem traced_callMethod {receiver : Value} {method : String} {args : List Value} {token : Token}
    (hstarts : ∀ id f m₁ target m₂, receiver = .object id →
      getProperty (.object id) (Token.named method token.line) m = .ok f m₁ →
      deref f m₁ = .ok target m₂ →
      Starts (evaluatorUpTo levels) m₀ moment (.call target args token) m₂) :
    slot.Traced (slot.ClosesAt moment m₀)
      (fun o => (evaluatorUnder o levels).callMethod receiver method args token) m := by
  cases receiver with
  | datum d => exact traced_plain (plain_action _ (Builtin.spares_callMethod _ _ _))
  | object id =>
    refine traced_bind (traced_plain (plain_getProperty _ _)) fun f m₁ hread => ?_
    simp only [callValue_deref]
    refine traced_bind (traced_plain (plain_deref _)) fun target m₂ htarget => ?_
    exact traced_callTarget h (hstarts id f m₁ target m₂ rfl hread htarget)
  | _ => exact traced_plain (plain_failAt _ _)

/-! ## Operators -/

/-- Wherever an operation is dispatched, what it comes to is a call of the method. -/
theorem traced_dispatched {e : Expr} {op : Operation} {x : Value} {method : String}
    (happlies : Applies (evaluatorUpTo levels) m₀ e op x m)
    (hd : op.Dispatches m.store.heap x method) :
    slot.Traced (slot.ClosesAt (.evaluating e) m₀)
      (fun o => (evaluatorUnder o levels).callMethod x method op.args op.token) m := by
  refine traced_callMethod h fun id f m₁ target m₂ hx hread htarget => ?_
  subst hx
  exact .operator happlies hd hread htarget

/-- An operator closes the slot by the method that it calls. -/
theorem traced_binaryOperation {e : Expr} {left right : Value} {operator : Token}
    (hleft : Applies (evaluatorUpTo levels) m₀ e (.binary operator right) left m)
    (hright : Applies (evaluatorUpTo levels) m₀ e (.flipped left operator) right m) :
    slot.Traced (slot.ClosesAt (.evaluating e) m₀)
      (fun o => (evaluatorUnder o levels).binaryOperation left operator right) m := by
  unfold binaryOperation
  cases hmethod : operator.kind.binaryMethod? with
  | none => exact traced_plain (plain_failAt _ _)
  | some method =>
    refine Traced.of_eq ?_ rfl fun o => Run.heap_bind _ m
    by_cases hl : hasMethod m.store.heap left method = true
    · simp only [if_pos hl]
      exact traced_dispatched h hleft ⟨hmethod, hl, fun _ _ heq => by cases heq⟩
    · simp only [if_neg hl]
      refine Traced.of_eq ?_ rfl fun o => Run.heap_bind _ m
      by_cases hr : hasMethod m.store.heap right method = true
      · simp only [if_pos hr]
        refine traced_dispatched h hright ⟨hmethod, hr, fun left' operator' heq => ?_⟩
        cases heq
        exact Bool.not_eq_true _ ▸ hl
      · simp only [if_neg hr]
        refine traced_plain ?_
        split
        · exact plain_nullOperation _
        · exact plain_failAt _ _

theorem traced_unaryOperation {e : Expr} {operand : Value} {operator : Token}
    (happlies : Applies (evaluatorUpTo levels) m₀ e (.unary operator) operand m) :
    slot.Traced (slot.ClosesAt (.evaluating e) m₀)
      (fun o => (evaluatorUnder o levels).unaryOperation operator operand) m := by
  unfold unaryOperation
  cases hmethod : operator.kind.unaryMethod? with
  | none => exact traced_plain (plain_failAt _ _)
  | some method =>
    refine Traced.of_eq ?_ rfl fun o => Run.heap_bind _ m
    by_cases hhas : hasMethod m.store.heap operand method = true
    · simp only [if_pos hhas]
      exact traced_dispatched h happlies ⟨hmethod, hhas, fun _ _ heq => by cases heq⟩
    · simp only [if_neg hhas]
      exact traced_plain (plain_failAt _ _)

/-- Reading an item closes the slot by the method that it calls. -/
theorem traced_indexGet {e : Expr} {object index : Value} {bracket : Token}
    (happlies : Applies (evaluatorUpTo levels) m₀ e (.getItem index bracket) object m) :
    slot.Traced (slot.ClosesAt (.evaluating e) m₀)
      (fun o => (evaluatorUnder o levels).indexGet object index bracket) m := by
  unfold indexGet
  dsimp only
  split
  · exact traced_failAt_bind _ _ _
  · refine Traced.of_eq ?_ rfl fun o => Run.heap_bind _ m
    by_cases hhas : hasMethod m.store.heap object "__getitem__" = true
    · simp only [hhas, Bool.not_true, Bool.false_eq_true, if_false]
      exact traced_dispatched h happlies ⟨rfl, hhas, fun _ _ heq => by cases heq⟩
    · simp only [hhas, Bool.not_false, if_true]
      exact traced_failAt_bind _ _ _

theorem traced_indexSet {e : Expr} {object index value : Value} {equals : Token}
    (happlies : Applies (evaluatorUpTo levels) m₀ e (.setItem index value equals) object m) :
    slot.Traced (slot.ClosesAt (.evaluating e) m₀)
      (fun o => (evaluatorUnder o levels).indexSet object index value equals) m := by
  unfold indexSet
  dsimp only
  split
  · exact traced_failAt_bind _ _ _
  · refine Traced.of_eq ?_ rfl fun o => Run.heap_bind _ m
    by_cases hhas : hasMethod m.store.heap object "__setitem__" = true
    · simp only [hhas, Bool.not_true, Bool.false_eq_true, if_false]
      refine traced_bind (traced_dispatched h happlies ⟨rfl, hhas, fun _ _ heq => by cases heq⟩)
        fun _ _ _ => traced_pure _
    · simp only [hhas, Bool.not_false, if_true]
      exact traced_failAt_bind _ _ _

end Parts

end Evaluator

end ScriptEngine
