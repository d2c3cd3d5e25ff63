import ScriptEngine.Evaluator.Call
import ScriptEngine.Proofs.Heap.Methods

/-!
# Refusals change nothing

A built-in method looks at its arguments and at the heap, decides whether it refuses, and only then
changes something: whatever comes behind the first change answers in any case. So a refusal leaves
the store as it found it (`Atomic`), which `comes_callMethod` says of every method of every built-in
instance. A program gets at these methods by name or by a native function that it keeps, and sees a
refusal as a runtime error (`refused_calls_change_nothing`).
-/

namespace ScriptEngine

section Rules

variable {ε σ α β : Type}

/-- If it ends with an error, the computation leaves the state as it is. -/
def Atomic (x : EStateM ε σ α) : Prop :=
  ∀ s e s', x s = .error e s' → s' = s

/-- However it ends, the computation leaves the state as it is. -/
def Looks (x : EStateM ε σ α) : Prop :=
  ∀ s, match x s with
    | .ok _ s' => s' = s
    | .error _ s' => s' = s

theorem looks_pure (a : α) : Looks (pure a : EStateM ε σ α) :=
  fun _ => rfl

theorem looks_throw (e : ε) : Looks (throw e : EStateM ε σ α) :=
  fun _ => rfl

/-- As long as a computation has only looked, it may still fail. -/
theorem Looks.bind_atomic {x : EStateM ε σ α} {f : α → EStateM ε σ β} (hx : Looks x)
    (hf : ∀ a, Atomic (f a)) : Atomic (x >>= f) := by
  intro s e s' hrun
  have h := hx s
  change EStateM.bind x f s = _ at hrun
  unfold EStateM.bind at hrun
  cases hr : x s with
  | error e' s'' =>
    rw [hr] at h hrun
    cases hrun
    exact h
  | ok a s'' =>
    rw [hr] at h hrun
    cases h
    exact hf a s e s' hrun

end Rules

/-- A method of a built-in instance that refuses a call has changed nothing. -/
theorem Builtin.atomic_callMethod (receiver : Datum) (method : String) (args : List Value) :
    Atomic (callMethod receiver method args) :=
  fun s _ _ hrun => ((comes_callMethod receiver method args s).error hrun).1

/-! ## In a program -/

/-- A refusal reaches the program as a runtime error and leaves the machine as it is. -/
theorem Run.atomic_action {α : Type} (token : Token) {a : Action α} (ha : Atomic a) :
    Atomic (Run.action token a) := by
  intro m halt m' hrun
  unfold Run.action at hrun
  dsimp only at hrun
  cases hr : a m.store with
  | ok v s =>
    rw [hr] at hrun
    cases hrun
  | error fault s =>
    rw [hr] at hrun
    cases hrun
    rw [ha m.store fault s hr]

/-- Counting arguments changes nothing. -/
theorem Evaluator.looks_checkArity (arity got : Nat) (paren : Token) :
    Looks (checkArity arity got paren) := by
  unfold checkArity
  split
  · exact looks_throw _
  · exact looks_pure _

namespace Builtin

/-- A call of a method of a built-in instance that ends with an error has changed nothing: neither
the items or entries of the receiver, their order or its limit, nor any other cell of the heap. This
holds of every receiver, every name and all arguments, and of both ways in which a program makes
such a call, by the name of the method and by a function that stands for it. -/
theorem refused_calls_change_nothing (receiver : Datum) (method : String) (args : List Value) :
    (∀ s fault s', callMethod receiver method args s = .error fault s' → s' = s) ∧
    (∀ (ev : Evaluator) (token : Token) (m m' : Machine) (halt : Halt),
      ev.callMethod (.datum receiver) method args token m = .error halt m' → m' = m) ∧
    ∀ (ev : Evaluator) (f : NativeFunction) (token : Token) (m m' : Machine) (halt : Halt),
      f.action = .method receiver method →
      ev.callTarget (.native f) args token m = .error halt m' → m' = m := by
  have hatomic := atomic_callMethod receiver method args
  refine ⟨hatomic, fun ev token m m' halt => Run.atomic_action token hatomic m halt m', ?_⟩
  intro ev f token m m' halt hf
  have hcall : Atomic (ev.callTarget (.native f) args token) := by
    refine (Evaluator.looks_checkArity _ _ token).bind_atomic fun _ => ?_
    rw [hf]
    exact Run.atomic_action token hatomic
  exact hcall m halt m'

/-- An array that is full refuses another item, also through a function that stands for `push`. -/
theorem refused_calls_change_nothing_full :
    let s : Store := ⟨{ Heap.empty with arrays := #[⟨#[.null], some 1⟩] }, #[], 0⟩
    let m : Machine := { Machine.start ⟨[], []⟩ 0 with store := s }
    let push : NativeFunction := ⟨1, "Array.push", 1, .method (.array 0) "push"⟩
    let ev : Evaluator := ⟨fun _ => throw .exhausted, fun _ => throw .exhausted⟩
    let token := Token.endOf 1
    (∃ s', callMethod (.array 0) "push" [.boolean true] s = .error .arrayFull s' ∧ s' = s) ∧
      (∃ halt m', ev.callMethod (.datum (.array 0)) "push" [.boolean true] token m =
        .error halt m' ∧ m' = m) ∧
      ∃ halt m', push.action = .method (.array 0) "push" ∧
        ev.callTarget (.native push) [.boolean true] token m = .error halt m' ∧ m' = m := by
  intro s m push ev token
  obtain ⟨hstore, hname, hfunction⟩ :=
    refused_calls_change_nothing (.array 0) "push" [.boolean true]
  exact ⟨⟨_, rfl, hstore s _ _ rfl⟩, ⟨_, _, rfl, hname ev token m _ _ rfl⟩,
    ⟨_, _, rfl, rfl, hfunction ev push token m _ _ rfl rfl⟩⟩

end Builtin

end ScriptEngine
