import ScriptEngine.Evaluator.Operator
import ScriptEngine.Evaluator.Class

/-!
# Expressions

The value of an expression, given the evaluation of its parts. A name that is bound to an import
reference evaluates to the reference itself, and calls and property reads go through it; every
other construct sees the value behind it.
-/

namespace ScriptEngine.Evaluator

open Run

/-- The value of an expression with import references followed. -/
def value (ev : Evaluator) (e : Expr) : Run Value := do
  deref (← ev.evaluate e)

/-- The values of a list of expressions in order. -/
def values (ev : Evaluator) : List Expr → Run (List Value)
  | [] => pure []
  | e :: es => do
    let first ← ev.value e
    let rest ← ev.values es
    pure (first :: rest)

/-- The entries of a map literal put into a map in order. -/
def mapValues (ev : Evaluator) : List (Token × Expr) → MapCell → Run MapCell
  | [], cell => pure cell
  | (key, e) :: entries, cell => do
    let v ← ev.value e
    let h ← heap
    ev.mapValues entries (cell.insert h.equals (.string key.lexeme) v)

/-- A constant as a value. -/
def constantValue : Constant → Value
  | .number x => .number x
  | .string s => .string s
  | .boolean b => .boolean b
  | .null => .null

/-- A function as a value. -/
def closure (decl : FunctionDecl) : Run Value := do
  let home ← activeModule
  let id ← onHeap Heap.fresh
  pure (.function ⟨id, decl, (← get).current, home, false, none⟩)

/-- A call. -/
def call (ev : Evaluator) (callee : Expr) (paren : Token) (arguments : List Expr) :
    Run Value := do
  let f ← ev.evaluate callee
  let args ← ev.values arguments
  match f with
  | .imported id => throughImport id fun target => ev.callValue target args paren
  | f => ev.callValue f args paren

/-- A property read. -/
def property (ev : Evaluator) (object : Expr) (name : Token) : Run Value := do
  match ← ev.evaluate object with
  | .imported id => throughImport id fun target => getProperty target name
  | value => getProperty value name

/-- A property write. Only instances of user classes have fields that can be written. -/
def setProperty (ev : Evaluator) (object : Expr) (name : Token) (valueExpr : Expr) :
    Run Value := do
  match ← ev.value object with
  | .object id => do
    let v ← ev.value valueExpr
    modifyHeap fun h => h.modifyObject id fun i => i.setField name.lexeme v
    pure v
  | _ => failAt name .fieldOnNonInstance

/-- The value of an expression. -/
def evaluateStep (ev : Evaluator) : Expr → Run Value
  | .constant _ c => pure (constantValue c)
  | .reference ref => lookUp ref.id ref.name
  | .assign id name e => do
    let v ← ev.value e
    assign id name v
    pure v
  | .grouping _ inner => ev.value inner
  | .binary _ left operator right => do
    let l ← ev.value left
    let r ← ev.value right
    ev.binaryOperation l operator r
  | .unary _ operator operand => do
    let v ← ev.value operand
    ev.unaryOperation operator v
  | .logical _ left operator right => do
    let l ← ev.value left
    let decided := if operator.kind = .or then l.isTruthy else !l.isTruthy
    if decided then pure l else ev.value right
  | .call _ callee paren arguments => ev.call callee paren arguments
  | .get _ object name => ev.property object name
  | .set _ object name e => ev.setProperty object name e
  | .getItem _ object bracket index => do
    let o ← ev.value object
    let i ← ev.value index
    ev.indexGet o i bracket
  | .setItem _ object index equals e => do
    let o ← ev.value object
    let i ← ev.value index
    let v ← ev.value e
    ev.indexSet o i v equals
    pure v
  | .self id keyword => lookUp id keyword
  | .super id keyword className method => superMethod id keyword className method
  | .array _ elements => do
    let items ← ev.values elements
    let id ← onHeap fun h => h.newArray (.ofItems items.toArray)
    pure (.datum (.array id))
  | .map _ entries => do
    let cell ← ev.mapValues entries ⟨[]⟩
    let id ← onHeap fun h => h.newMap cell
    pure (.datum (.map id))
  | .lambda _ decl => closure decl

end ScriptEngine.Evaluator
