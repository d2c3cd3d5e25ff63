import ScriptEngine.Proofs.Session.Backing

/-!
# Operators on instances

An operator or index form that is dispatched on an instance runs the method that the class of the
instance has: bound to the instance if it comes from the program, and served by a backing instance
if it comes from a built-in class. Dispatch looks at the class alone, but the method is fetched like
a property, so all of this is so only where no field has the name of the method. A field with that
name is called in its place, whatever it holds.
-/

namespace ScriptEngine

/-- A construct can come to the value of one more operand. -/
theorem Evaluator.Gathers.value {ev : Evaluator} {operands : List Expr} {m m₁ m₂ : Machine}
    {vs : List Value} (h : Gathers ev operands m vs m₁) {e : Expr} (he : e ∈ operands) {v : Value}
    (hv : ev.value e m₁ = .ok v m₂) : ∃ vs', Gathers ev operands m vs' m₂ := by
  obtain ⟨seen, m₃, hseen, htarget⟩ := Run.bind_ok hv
  exact ⟨_, (h.operand he hseen).target List.mem_cons_self htarget⟩

namespace Applies

variable {m m₁ : Machine} {e : Expr} {op : Operation} {x : Value} {levels : Nat}

/-- The machine that is left once the operands have been evaluated is one that the expression can
come to. -/
theorem gathers {ev : Evaluator} (h : Applies ev m e op x m₁) :
    ∃ vs, ev.Gathers (Moment.evaluating e).operands m vs m₁ := by
  cases h with
  | binary id operator hleft hright | flipped id operator hleft hright =>
    obtain ⟨vs, h₁⟩ := Evaluator.Gathers.start.value List.mem_cons_self hleft
    exact h₁.value (List.mem_cons_of_mem _ List.mem_cons_self) hright
  | unary id operator hx => exact Evaluator.Gathers.start.value List.mem_cons_self hx
  | getItem id bracket hx hi =>
    obtain ⟨vs, h₁⟩ := Evaluator.Gathers.start.value List.mem_cons_self hx
    exact h₁.value (List.mem_cons_of_mem _ List.mem_cons_self) hi
  | setItem id equals hx hi hv =>
    obtain ⟨vs, h₁⟩ := Evaluator.Gathers.start.value List.mem_cons_self hx
    obtain ⟨vs', h₂⟩ := h₁.value (List.mem_cons_of_mem _ List.mem_cons_self) hi
    exact h₂.value (List.mem_cons_of_mem _ (List.mem_cons_of_mem _ List.mem_cons_self)) hv

end Applies

namespace Session

/-- In every session, whenever the operands of an operator or index form have been evaluated and it
is dispatched on an instance, what is left of the evaluation is a call of the method that the class
of the instance has, bound to the instance or served by what backs it; this is so as long as the
instance has no field with the name of the method. If it has one, the value of that field is called
instead. -/
theorem operators_call_methods (files : FileSystem) (clock depth : Nat) (steps : List Step) :
    Throughout files clock depth steps fun moment m =>
      ∀ e, moment = .evaluating e → ∀ levels op id m₁ method,
        Applies (evaluatorUpTo levels) m e op (.object id) m₁ →
        op.Dispatches m₁.store.heap (.object id) method →
        ((m₁.store.heap.object id).field? method = none → ∃ callee m₂,
          Answers m₁ id method callee m₂ ∧
            evaluate (levels + 1) e m = ((evaluatorUpTo levels).callTarget callee op.args
              op.token >>= fun v => pure (op.result v)) m₂) ∧
        ∀ v, (m₁.store.heap.object id).field? method = some v →
          evaluate (levels + 1) e m = ((evaluatorUpTo levels).callValue v op.args
            op.token >>= fun v => pure (op.result v)) m₁ := by
  obtain ⟨w, -, hforeseen, -⟩ := throughout_foreseen files clock depth steps
  refine hforeseen.mono fun moment m hm => ?_
  rintro e rfl levels op id m₁ method happlies hdispatches
  obtain ⟨w₀, -, -, home, stack, hr⟩ := hm
  obtain ⟨vs, hgathers⟩ := happlies.gathers
  obtain ⟨w₁, h₁, -⟩ := hgathers.sound hr
  rw [happlies.evaluate_eq]
  refine ⟨fun hfield => ?_, fun v hfield => Operation.run_field _ hdispatches hfield⟩
  obtain ⟨callee, m₂, hanswers⟩ := (h₁.sound.heap.backed id).exists_answer hdispatches.has
  exact ⟨callee, m₂, hanswers, Operation.run_answers _ hdispatches hfield hanswers⟩

/-- Two programs in which an instance has a field with the name of a method that its class has for
an operator: in the first the operator calls the function in the field, and in the second it fails,
since what the field holds cannot be called. -/
theorem field_replaces_method :
    Prod.map id (fun s => s.machine.store.output)
      (runUpTo 16 (start ⟨[], []⟩ 0)
        ("class A \x7b __add__(o) \x7b return 1; \x7d \x7d " ++
          "var a = A(); a.__add__ = (o) -> 2; print a + 5;")) =
      (.ok, #["2"]) ∧
    Prod.map id (fun s => s.machine.store.output)
      (runUpTo 16 (start ⟨[], []⟩ 0)
        ("class A \x7b __add__(o) \x7b return 1; \x7d \x7d " ++
          "var a = A(); a.__add__ = 3; print a + 5;")) =
      (.runtimeFailed, #[]) := by
  decide +kernel

end Session

end ScriptEngine
