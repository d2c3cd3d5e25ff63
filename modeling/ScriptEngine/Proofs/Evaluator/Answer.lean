import ScriptEngine.Evaluator.Operator
import ScriptEngine.Proofs.Evaluator.Tracking

/-!
# What answers for an instance

Whether an operator is dispatched on an instance is decided by its class alone, but the method is
then read like any other property, and fields come before methods. `Answers` is what the class has
under a name, bound to the instance: a function of the program with a frame for `this`, or a native
function for the backing instance of the built-in class where the name was found. Where no field
has the name, reading it comes to just that (`getProperty_answers`), and so does the call that every
operator and index form comes down to (`Operation.run_answers`). Where a field has the name, the
value of the field is called in its place (`Operation.run_field`).
-/

namespace ScriptEngine

/-- The machine with one identity number given away. -/
def Machine.numbered (m : Machine) : Machine :=
  m.withHeap m.store.heap.fresh.2

/-- A method of a backing instance, as a value that is made in a machine. -/
def Machine.backingMethod (m : Machine) (d : Datum) (method : String) (arity : Nat) : Value :=
  .native ⟨m.store.heap.nextIdentity, d.cls.name ++ "." ++ method, arity, .method d method⟩

/-- The method that the class of an instance has under a name, bound to the instance or to what
backs it, and the machine in which it is made. -/
inductive Answers (m : Machine) (id : ObjectId) (method : String) : Value → Machine → Prop
  | user {f : Function}
      (hfound : (m.store.heap.object id).cls.findMethod? method = some (.user f)) :
      Answers m id method
        (.function { f with id := m.store.heap.nextIdentity, closure := m.frames.frames.size })
        (m.withFrame (boundFrame f.closure [("this", .object id)])).numbered
  | builtin {b : BuiltinClass} {d : Datum} {arity : Nat}
      (hfound : (m.store.heap.object id).cls.findMethod? method = some (.builtin b))
      (hd : (m.store.heap.object id).native? b = some d) (hcls : d.cls = b)
      (harity : b.methodArity? method = some arity) :
      Answers m id method (m.backingMethod d method arity) m.numbered

section

variable {m m' : Machine} {id : ObjectId} {method : String} {callee : Value}

/-- Nothing that answers is an import reference. -/
theorem Answers.ne_imported (h : Answers m id method callee m') (i : ImportId) :
    callee ≠ .imported i := by
  cases h with
  | user _ => exact fun heq => by cases heq
  | builtin _ _ _ _ => exact fun heq => by cases heq

/-- A built-in class at which a name is found has a backing instance that has the method. -/
theorem Instance.Backed.served {allowed : BuiltinClass → Prop}
    (h : (m.store.heap.object id).Backed allowed) {b : BuiltinClass}
    (hfound : (m.store.heap.object id).cls.findMethod? method = some (.builtin b)) :
    ∃ d arity, (m.store.heap.object id).native? b = some d ∧ d.cls = b ∧
      b.methodArity? method = some arity := by
  obtain ⟨d, hd, hcls⟩ := h.native? (Class.mem_builtinAncestors_of_findMethod? hfound)
  obtain ⟨arity, harity⟩ :=
    Option.isSome_iff_exists.mp (Class.hasMethod_of_findMethod? _ hfound)
  exact ⟨d, arity, hd, hcls, harity⟩

/-- Whatever a class has under a name answers for its instances. -/
theorem Instance.Backed.exists_answer {allowed : BuiltinClass → Prop}
    (h : (m.store.heap.object id).Backed allowed)
    (hhas : Run.hasMethod m.store.heap (.object id) method = true) :
    ∃ callee m', Answers m id method callee m' := by
  obtain ⟨found, hfound⟩ := Option.isSome_iff_exists.mp hhas
  cases found with
  | user f => exact ⟨_, _, .user hfound⟩
  | builtin b =>
    obtain ⟨d, arity, hd, hcls, harity⟩ := h.served hfound
    exact ⟨_, _, .builtin hfound hd hcls harity⟩

/-! ## Reading the property -/

theorem Run.heap_bind {α : Type} (k : Heap → Run α) (m : Machine) :
    (Run.heap >>= k) m = k m.store.heap m := rfl

/-- Binding a method of a built-in value takes one number. -/
theorem action_bindMethod? (m : Machine) (token : Token) (d : Datum) {arity : Nat}
    (harity : d.cls.methodArity? method = some arity) :
    Run.action token (Builtin.bindMethod? d method) m =
      .ok (some (m.backingMethod d method arity)) m.numbered := by
  unfold Run.action Builtin.bindMethod?
  rw [harity]
  rfl

/-- A field of an instance is read before its methods are looked for. -/
theorem getProperty_field {v : Value} (name : Token)
    (hfield : (m.store.heap.object id).field? name.lexeme = some v) :
    Run.getProperty (.object id) name m = .ok v m := by
  simp only [Run.getProperty, Run.objectProperty, Run.heap_bind, hfield]
  rfl

/-- Without a field of the name, the property is what the class has under it. -/
theorem getProperty_answers {name : Token}
    (hfield : (m.store.heap.object id).field? name.lexeme = none)
    (h : Answers m id name.lexeme callee m') :
    Run.getProperty (.object id) name m = .ok callee m' := by
  simp only [Run.getProperty, Run.objectProperty, Run.heap_bind, hfield]
  cases h with
  | user hfound =>
    rw [hfound]
    rfl
  | builtin hfound hd hcls harity =>
    rw [hfound]
    dsimp only
    rw [hd]
    exact Run.bind_of_ok (action_bindMethod? m name _ (hcls.symm ▸ harity))

end

/-! ## Calling what is behind import references -/

/-- What stands behind import references is no import reference. -/
theorem derefUpTo_ne_imported (steps : Nat) :
    ∀ {v v' : Value} {m m' : Machine}, Run.derefUpTo steps v m = .ok v' m' →
      ∀ id, v' ≠ .imported id := by
  induction steps with
  | zero =>
    intro v v' m m' h
    cases v with
    | imported id => cases h
    | _ =>
      cases h
      exact fun _ h => by cases h
  | succ steps ih =>
    intro v v' m m' h
    cases v with
    | imported id =>
      obtain ⟨target, m₁, -, h⟩ := Run.bind_ok h
      exact ih h
    | _ =>
      cases h
      exact fun _ h => by cases h

/-- What is no reference is called itself. -/
theorem callValue_eq (ev : Evaluator) {f : Value} (h : ∀ id, f ≠ .imported id) (args : List Value)
    (paren : Token) : ev.callValue f args paren = ev.callTarget f args paren := by
  cases f with
  | imported id => exact absurd rfl (h id)
  | _ => rfl

/-- A call follows import references first. -/
theorem callValue_deref (ev : Evaluator) (f : Value) (args : List Value) (paren : Token) :
    ev.callValue f args paren = Run.deref f >>= fun target => ev.callTarget target args paren := by
  cases f <;> rfl

/-! ## Operators and index forms -/

/-- An operator or an index form, around the operand that it is dispatched on. -/
inductive Operation where
  | binary (operator : Token) (right : Value)
  | flipped (left : Value) (operator : Token)
  | unary (operator : Token)
  | getItem (index : Value) (bracket : Token)
  | setItem (index value : Value) (equals : Token)

namespace Operation

/-- What an operation does with an operand. -/
def run (ev : Evaluator) (operand : Value) : Operation → Run Value
  | binary operator right => ev.binaryOperation operand operator right
  | flipped left operator => ev.binaryOperation left operator operand
  | unary operator => ev.unaryOperation operator operand
  | getItem index bracket => ev.indexGet operand index bracket
  | setItem index value equals => do
    ev.indexSet operand index value equals
    pure value

/-- The name of the method that an operation stands for. -/
def method? : Operation → Option String
  | binary operator _ => operator.kind.binaryMethod?
  | flipped _ operator => operator.kind.binaryMethod?
  | unary operator => operator.kind.unaryMethod?
  | getItem _ _ => some "__getitem__"
  | setItem _ _ _ => some "__setitem__"

/-- What the method is called with. -/
def args : Operation → List Value
  | binary _ right => [right]
  | flipped left _ => [left]
  | unary _ => []
  | getItem index _ => [index]
  | setItem index value _ => [index, value]

/-- Where errors of the call are reported. -/
def token : Operation → Token
  | binary operator _ => operator
  | flipped _ operator => operator
  | unary operator => operator
  | getItem _ bracket => bracket
  | setItem _ _ equals => equals

/-- What becomes of the value that the method returns: an assignment has the value assigned. -/
def result : Operation → Value → Value
  | setItem _ value _ => fun _ => value
  | _ => id

/-- An operation is dispatched on an operand: it has the method, and where the operand stands on
the right, the one on the left does not have it. -/
structure Dispatches (op : Operation) (h : Heap) (operand : Value) (method : String) : Prop where
  named : op.method? = some method
  has : Run.hasMethod h operand method = true
  first : ∀ left operator, op = flipped left operator → Run.hasMethod h left method = false

variable {op : Operation} {m m' : Machine} {id : ObjectId} {method : String}

/-- Every operation comes down to a call of the method by its name. -/
theorem run_eq (ev : Evaluator) (hd : op.Dispatches m.store.heap (.object id) method) :
    op.run ev (.object id) m =
      (ev.callMethod (.object id) method op.args op.token >>= fun v => pure (op.result v)) m := by
  obtain ⟨hnamed, hhas, hfirst⟩ := hd
  cases op with
  | binary operator right =>
    have hkind : operator.kind.binaryMethod? = some method := hnamed
    simp only [run, args, token, result, id_eq, bind_pure, Evaluator.binaryOperation, hkind,
      Run.heap_bind, hhas, if_true]
  | flipped left operator =>
    have hkind : operator.kind.binaryMethod? = some method := hnamed
    have hleft := hfirst left operator rfl
    simp only [run, args, token, result, id_eq, bind_pure, Evaluator.binaryOperation, hkind,
      Run.heap_bind, hleft, hhas, Bool.false_eq_true, if_false, if_true]
  | unary operator =>
    have hkind : operator.kind.unaryMethod? = some method := hnamed
    simp only [run, args, token, result, id_eq, bind_pure, Evaluator.unaryOperation, hkind,
      Run.heap_bind, hhas, if_true]
  | getItem index bracket =>
    obtain rfl : "__getitem__" = method := Option.some.inj hnamed
    simp only [run, args, token, result, id_eq, bind_pure, Evaluator.indexGet,
      Evaluator.isInstance, Run.heap_bind, hhas, Bool.not_true, Bool.false_eq_true, if_false]
  | setItem index value equals =>
    obtain rfl : "__setitem__" = method := Option.some.inj hnamed
    simp only [run, args, token, result, Evaluator.indexSet, Evaluator.isInstance, Run.heap_bind,
      hhas, Bool.not_true, Bool.false_eq_true, if_false, pure_bind, bind_assoc]

/-- What is called is whatever reading the property comes to. -/
theorem run_read (ev : Evaluator) (hd : op.Dispatches m.store.heap (.object id) method)
    {callee : Value} (hread : Run.getProperty (.object id) (Token.named method op.token.line) m =
      .ok callee m') :
    op.run ev (.object id) m =
      (ev.callValue callee op.args op.token >>= fun v => pure (op.result v)) m' := by
  have hcall : ev.callMethod (.object id) method op.args op.token m =
      ev.callValue callee op.args op.token m' := Run.bind_of_ok hread
  rw [run_eq ev hd]
  show EStateM.bind _ _ m = EStateM.bind _ _ m'
  rw [EStateM.bind, EStateM.bind, hcall]

/-- Without a field of the method's name, what the class has under it is called. -/
theorem run_answers (ev : Evaluator) (hd : op.Dispatches m.store.heap (.object id) method)
    (hfield : (m.store.heap.object id).field? method = none) {callee : Value}
    (h : Answers m id method callee m') :
    op.run ev (.object id) m =
      (ev.callTarget callee op.args op.token >>= fun v => pure (op.result v)) m' := by
  rw [run_read ev hd (getProperty_answers hfield h)]
  cases callee with
  | imported i => exact absurd rfl (h.ne_imported i)
  | _ => rfl

/-- A field of the method's name is called in place of the method. -/
theorem run_field (ev : Evaluator) (hd : op.Dispatches m.store.heap (.object id) method) {v : Value}
    (hfield : (m.store.heap.object id).field? method = some v) :
    op.run ev (.object id) m =
      (ev.callValue v op.args op.token >>= fun v => pure (op.result v)) m :=
  run_read ev hd (getProperty_field _ hfield)

end Operation

/-- What an expression comes to once its operands have been evaluated: an operation on one of them,
in the machine that this leaves. -/
inductive Applies (ev : Evaluator) (m : Machine) : Expr → Operation → Value → Machine → Prop
  | binary {left right : Expr} {x y : Value} {m₁ m₂ : Machine} (id : ExprId) (operator : Token)
      (hleft : ev.value left m = .ok x m₁) (hright : ev.value right m₁ = .ok y m₂) :
      Applies ev m (.binary id left operator right) (.binary operator y) x m₂
  | flipped {left right : Expr} {x y : Value} {m₁ m₂ : Machine} (id : ExprId) (operator : Token)
      (hleft : ev.value left m = .ok x m₁) (hright : ev.value right m₁ = .ok y m₂) :
      Applies ev m (.binary id left operator right) (.flipped x operator) y m₂
  | unary {operand : Expr} {x : Value} {m₁ : Machine} (id : ExprId) (operator : Token)
      (hx : ev.value operand m = .ok x m₁) :
      Applies ev m (.unary id operator operand) (.unary operator) x m₁
  | getItem {object index : Expr} {x i : Value} {m₁ m₂ : Machine} (id : ExprId) (bracket : Token)
      (hx : ev.value object m = .ok x m₁) (hi : ev.value index m₁ = .ok i m₂) :
      Applies ev m (.getItem id object bracket index) (.getItem i bracket) x m₂
  | setItem {object index value : Expr} {x i v : Value} {m₁ m₂ m₃ : Machine} (id : ExprId)
      (equals : Token) (hx : ev.value object m = .ok x m₁) (hi : ev.value index m₁ = .ok i m₂)
      (hv : ev.value value m₂ = .ok v m₃) :
      Applies ev m (.setItem id object index equals value) (.setItem i v equals) x m₃

/-- The rest of the evaluation is the operation. -/
theorem Applies.evaluate_eq {m m₁ : Machine} {e : Expr} {op : Operation} {x : Value} {levels : Nat}
    (h : Applies (evaluatorUpTo levels) m e op x m₁) :
    evaluate (levels + 1) e m = op.run (evaluatorUpTo levels) x m₁ := by
  rw [evaluate]
  cases h with
  | binary id operator hleft hright =>
    exact (Run.bind_of_ok hleft).trans (Run.bind_of_ok hright)
  | flipped id operator hleft hright =>
    exact (Run.bind_of_ok hleft).trans (Run.bind_of_ok hright)
  | unary id operator hx => exact Run.bind_of_ok hx
  | getItem id bracket hx hi => exact (Run.bind_of_ok hx).trans (Run.bind_of_ok hi)
  | setItem id equals hx hi hv =>
    exact (Run.bind_of_ok hx).trans ((Run.bind_of_ok hi).trans (Run.bind_of_ok hv))

end ScriptEngine
