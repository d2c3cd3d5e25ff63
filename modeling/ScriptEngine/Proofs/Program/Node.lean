import ScriptEngine.Proofs.Scope.Mark

/-!
# The expressions of a program

`exprNodes` and `stmtNodes` list every expression that a piece of program contains, in the bodies of
functions and in the heads of classes too. Each has its number, be it one that something is looked
up under or not. The numbers of the uses are among them, none of them more often
(`count_stmtsMarks`).
-/

namespace ScriptEngine

mutual

/-- The expressions in an expression, and the expression itself. -/
def exprNodes : Expr → List Expr
  | .constant id value => [.constant id value]
  | .reference ref => [.reference ref]
  | .assign id name value => .assign id name value :: exprNodes value
  | .binary id left operator right =>
    .binary id left operator right :: (exprNodes left ++ exprNodes right)
  | .logical id left operator right =>
    .logical id left operator right :: (exprNodes left ++ exprNodes right)
  | .unary id operator operand => .unary id operator operand :: exprNodes operand
  | .grouping id inner => .grouping id inner :: exprNodes inner
  | .call id callee paren arguments =>
    .call id callee paren arguments :: (exprNodes callee ++ exprsNodes arguments)
  | .get id object name => .get id object name :: exprNodes object
  | .set id object name value =>
    .set id object name value :: (exprNodes object ++ exprNodes value)
  | .getItem id object bracket index =>
    .getItem id object bracket index :: (exprNodes object ++ exprNodes index)
  | .setItem id object index equals value =>
    .setItem id object index equals value ::
      (exprNodes object ++ exprNodes index ++ exprNodes value)
  | .self id keyword => [.self id keyword]
  | .super id keyword className method => [.super id keyword className method]
  | .array id elements => .array id elements :: exprsNodes elements
  | .map id entries => .map id entries :: entriesNodes entries
  | .lambda id decl => .lambda id decl :: functionNodes decl

/-- The expressions in a list of expressions. -/
def exprsNodes : List Expr → List Expr
  | [] => []
  | e :: es => exprNodes e ++ exprsNodes es

/-- The expressions in the values of a map. -/
def entriesNodes : List (Token × Expr) → List Expr
  | [] => []
  | (_, e) :: es => exprNodes e ++ entriesNodes es

/-- The expressions in an optional expression. -/
def optionalNodes : Option Expr → List Expr
  | none => []
  | some e => exprNodes e

/-- The expressions in the body of a function. -/
def functionNodes : FunctionDecl → List Expr
  | .mk _ _ body _ => stmtsNodes body

/-- The expressions in the methods of a class. -/
def methodsNodes : List FunctionDecl → List Expr
  | [] => []
  | decl :: decls => functionNodes decl ++ methodsNodes decls

/-- The expressions in a statement. The names of the superclasses of a class are expressions. -/
def stmtNodes : Stmt → List Expr
  | .expression value => exprNodes value
  | .print value => exprNodes value
  | .var _ init? => optionalNodes init?
  | .block body => stmtsNodes body
  | .branch condition thenPart elsePart? =>
    exprNodes condition ++ stmtNodes thenPart ++ elseNodes elsePart?
  | .loop condition body => exprNodes condition ++ stmtNodes body
  | .function decl => functionNodes decl
  | .ret _ value? => optionalNodes value?
  | .classDecl _ refs decls => refs.map .reference ++ methodsNodes decls
  | .importFrom _ _ => []
  | .exported inner => stmtNodes inner
  | .throw _ value => exprNodes value
  | .attempt body _ handler? cleanup? =>
    stmtsNodes body ++ blockNodes handler? ++ blockNodes cleanup?

/-- The expressions in what stands behind `else`. -/
def elseNodes : Option Stmt → List Expr
  | none => []
  | some s => stmtNodes s

/-- The expressions in a list of statements. -/
def stmtsNodes : List Stmt → List Expr
  | [] => []
  | s :: ss => stmtNodes s ++ stmtsNodes ss

/-- The expressions in an optional list of statements. -/
def blockNodes : Option (List Stmt) → List Expr
  | none => []
  | some body => stmtsNodes body

end

/-- The nodes of a list of expressions are those of each. -/
theorem exprsNodes_eq (es : List Expr) : exprsNodes es = es.flatMap exprNodes := by
  induction es with
  | nil => rfl
  | cons e es ih => rw [exprsNodes, ih, List.flatMap_cons]

/-- The nodes of a map literal are those of its values. -/
theorem entriesNodes_eq (es : List (Token × Expr)) :
    entriesNodes es = es.flatMap fun e => exprNodes e.2 := by
  induction es with
  | nil => rfl
  | cons e es ih => rw [entriesNodes, ih, List.flatMap_cons]

/-- The nodes of methods are those of each. -/
theorem methodsNodes_eq (decls : List FunctionDecl) :
    methodsNodes decls = decls.flatMap functionNodes := by
  induction decls with
  | nil => rfl
  | cons decl decls ih => rw [methodsNodes, ih, List.flatMap_cons]

/-- The nodes of a list of statements are those of each. -/
theorem stmtsNodes_eq (ss : List Stmt) : stmtsNodes ss = ss.flatMap stmtNodes := by
  induction ss with
  | nil => rfl
  | cons s ss ih => rw [stmtsNodes, ih, List.flatMap_cons]

theorem entriesNodes_append (es es' : List (Token × Expr)) :
    entriesNodes (es ++ es') = entriesNodes es ++ entriesNodes es' := by
  simp only [entriesNodes_eq, List.flatMap_append]

theorem methodsNodes_append (decls decls' : List FunctionDecl) :
    methodsNodes (decls ++ decls') = methodsNodes decls ++ methodsNodes decls' := by
  simp only [methodsNodes_eq, List.flatMap_append]

theorem stmtsNodes_append (ss ss' : List Stmt) :
    stmtsNodes (ss ++ ss') = stmtsNodes ss ++ stmtsNodes ss' := by
  simp only [stmtsNodes_eq, List.flatMap_append]

/-- The numbers of expressions. -/
def ids (nodes : List Expr) : List ExprId := nodes.map Expr.id

@[simp, grind =] theorem ids_nil : ids [] = [] := rfl

@[simp, grind =] theorem ids_cons (e : Expr) (nodes : List Expr) :
    ids (e :: nodes) = e.id :: ids nodes := rfl

@[simp, grind =] theorem ids_append (nodes nodes' : List Expr) :
    ids (nodes ++ nodes') = ids nodes ++ ids nodes' :=
  List.map_append

/-- References have the numbers of their nodes. -/
@[simp, grind =] theorem ids_refs (refs : List Reference) :
    ids (refs.map .reference) = refs.map (·.id) := by
  simp [ids, Expr.id]

attribute [grind =] Expr.id exprNodes exprsNodes entriesNodes optionalNodes functionNodes
  methodsNodes stmtNodes elseNodes stmtsNodes blockNodes

namespace Scope

attribute [grind =] exprMarks exprsMarks entriesMarks optionalMarks functionMarks methodsMarks
  stmtMarks elseMarks stmtsMarks blockMarks

/-! ## Uses are nodes -/

mutual

/-- The numbers of the uses in an expression are numbers of its nodes, each as often at most. -/
theorem count_exprMarks (id : ExprId) :
    ∀ e, (numbers (exprMarks e)).count id ≤ (ids (exprNodes e)).count id
  | .constant _ _ | .reference _ | .self _ _ | .super _ _ _ _ => by grind
  | .assign _ _ value => by grind [count_exprMarks id value]
  | .binary _ left _ right | .logical _ left _ right => by
    grind [count_exprMarks id left, count_exprMarks id right]
  | .unary _ _ operand => by grind [count_exprMarks id operand]
  | .grouping _ inner => by grind [count_exprMarks id inner]
  | .call _ callee _ arguments => by
    grind [count_exprMarks id callee, count_exprsMarks id arguments]
  | .get _ object _ => by grind [count_exprMarks id object]
  | .set _ object _ value => by grind [count_exprMarks id object, count_exprMarks id value]
  | .getItem _ object _ index => by grind [count_exprMarks id object, count_exprMarks id index]
  | .setItem _ object index _ value => by
    grind [count_exprMarks id object, count_exprMarks id index, count_exprMarks id value]
  | .array _ elements => by grind [count_exprsMarks id elements]
  | .map _ entries => by grind [count_entriesMarks id entries]
  | .lambda _ decl => by grind [count_functionMarks id decl]

theorem count_exprsMarks (id : ExprId) :
    ∀ es, (numbers (exprsMarks es)).count id ≤ (ids (exprsNodes es)).count id
  | [] => Nat.le_refl _
  | e :: es => by grind [count_exprMarks id e, count_exprsMarks id es]

theorem count_entriesMarks (id : ExprId) :
    ∀ es, (numbers (entriesMarks es)).count id ≤ (ids (entriesNodes es)).count id
  | [] => Nat.le_refl _
  | (_, e) :: es => by grind [count_exprMarks id e, count_entriesMarks id es]

theorem count_optionalMarks (id : ExprId) :
    ∀ e?, (numbers (optionalMarks e?)).count id ≤ (ids (optionalNodes e?)).count id
  | none => Nat.le_refl _
  | some e => count_exprMarks id e

theorem count_functionMarks (id : ExprId) :
    ∀ decl, (numbers (functionMarks decl)).count id ≤ (ids (functionNodes decl)).count id
  | .mk _ _ body _ => by grind [count_stmtsMarks id body]

theorem count_methodsMarks (id : ExprId) :
    ∀ decls, (numbers (methodsMarks decls)).count id ≤ (ids (methodsNodes decls)).count id
  | [] => Nat.le_refl _
  | decl :: decls => by grind [count_functionMarks id decl, count_methodsMarks id decls]

/-- No number stands under more marks of a statement than nodes, by induction on the tree. -/
theorem count_stmtMarks (id : ExprId) :
    ∀ s, (numbers (stmtMarks s)).count id ≤ (ids (stmtNodes s)).count id
  | .expression value | .print value | .throw _ value => count_exprMarks id value
  | .var _ init? => count_optionalMarks id init?
  | .block body => count_stmtsMarks id body
  | .branch condition thenPart elsePart? => by
    grind [count_exprMarks id condition, count_stmtMarks id thenPart,
      count_elseMarks id elsePart?]
  | .loop condition body => by grind [count_exprMarks id condition, count_stmtMarks id body]
  | .function decl => count_functionMarks id decl
  | .ret _ value? => count_optionalMarks id value?
  | .classDecl _ refs decls => by simpa [stmtMarks, stmtNodes] using count_methodsMarks id decls
  | .importFrom _ items => by
    have hnames := numbers_names (items.map (·.binding))
    rw [List.map_map] at hnames
    exact Nat.le_of_eq (congrArg (List.count id) hnames)
  | .exported inner => count_stmtMarks id inner
  | .attempt body _ handler? cleanup? => by
    grind [count_stmtsMarks id body, count_blockMarks id handler?, count_blockMarks id cleanup?]

theorem count_elseMarks (id : ExprId) :
    ∀ s?, (numbers (elseMarks s?)).count id ≤ (ids (elseNodes s?)).count id
  | none => Nat.le_refl _
  | some s => count_stmtMarks id s

theorem count_stmtsMarks (id : ExprId) :
    ∀ ss, (numbers (stmtsMarks ss)).count id ≤ (ids (stmtsNodes ss)).count id
  | [] => Nat.le_refl _
  | s :: ss => by grind [count_stmtMarks id s, count_stmtsMarks id ss]

theorem count_blockMarks (id : ExprId) :
    ∀ body?, (numbers (blockMarks body?)).count id ≤ (ids (blockNodes body?)).count id
  | none => Nat.le_refl _
  | some body => count_stmtsMarks id body

end

end Scope

end ScriptEngine
