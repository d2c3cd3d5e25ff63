import ScriptEngine.Evaluator.Statement

/-!
# Evaluation

Programs may run forever, so evaluation has a bound on its depth. A part of a program is
evaluated with one level less than the whole, and a loop makes at most as many rounds as there
are levels left. A computation that uses up its levels says so and gives no other answer.
-/

namespace ScriptEngine

mutual

/-- The value of an expression, with a bound on the depth. -/
def evaluate : Nat → Expr → Run Value
  | 0, _ => throw .exhausted
  | depth + 1, e => Evaluator.evaluateStep ⟨evaluate depth, execute depth⟩ e

/-- Runs a statement, with a bound on the depth. -/
def execute : Nat → Stmt → Run Flow
  | 0, _ => throw .exhausted
  | depth + 1, s => Evaluator.executeStep ⟨evaluate depth, execute depth⟩ depth s

end

/-- Evaluation with a bound on the depth. -/
def evaluatorUpTo (depth : Nat) : Evaluator :=
  ⟨evaluate depth, execute depth⟩

end ScriptEngine
