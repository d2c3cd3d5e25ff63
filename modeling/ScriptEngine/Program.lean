import ScriptEngine.Token

/-!
# Programs

The tree of a program: expressions, functions and statements. Every expression carries a number
of its own, under which its scope distance is recorded. Names keep their token, since diagnostics
point at it.
-/

namespace ScriptEngine

/-- The number of an expression. -/
abbrev ExprId := Nat

/-- A constant as written in a program. -/
inductive Constant where
  | number (value : Float)
  | string (text : String)
  | boolean (value : Bool)
  | null

/-- A name used as an expression. -/
structure Reference where
  id : ExprId
  name : Token

/-- One imported name with its optional alias. -/
structure ImportItem where
  name : Token
  alias? : Option Token

/-- The name that an import item binds. -/
def ImportItem.binding (item : ImportItem) : Token :=
  item.alias?.getD item.name

mutual

/-- Expressions. -/
inductive Expr where
  | constant (id : ExprId) (value : Constant)
  | reference (ref : Reference)
  | assign (id : ExprId) (name : Token) (value : Expr)
  | binary (id : ExprId) (left : Expr) (operator : Token) (right : Expr)
  | logical (id : ExprId) (left : Expr) (operator : Token) (right : Expr)
  | unary (id : ExprId) (operator : Token) (operand : Expr)
  | grouping (id : ExprId) (inner : Expr)
  | call (id : ExprId) (callee : Expr) (paren : Token) (arguments : List Expr)
  | get (id : ExprId) (object : Expr) (name : Token)
  | set (id : ExprId) (object : Expr) (name : Token) (value : Expr)
  | getItem (id : ExprId) (object : Expr) (bracket : Token) (index : Expr)
  | setItem (id : ExprId) (object : Expr) (index : Expr) (equals : Token) (value : Expr)
  | self (id : ExprId) (keyword : Token)
  | super (id : ExprId) (keyword : Token) (className : Token) (method : Token)
  | array (id : ExprId) (elements : List Expr)
  | map (id : ExprId) (entries : List (Token × Expr))
  | lambda (id : ExprId) (decl : FunctionDecl)

/-- A function, method or arrow function. An arrow function is `anonymous`. -/
inductive FunctionDecl where
  | mk (name : Token) (params : List Token) (body : List Stmt) (anonymous : Bool)

/-- Statements. A `for` loop has no form of its own: it is written with `loop`. -/
inductive Stmt where
  | expression (value : Expr)
  | print (value : Expr)
  | var (name : Token) (init? : Option Expr)
  | block (body : List Stmt)
  | branch (condition : Expr) (thenPart : Stmt) (elsePart? : Option Stmt)
  | loop (condition : Expr) (body : Stmt)
  | function (decl : FunctionDecl)
  | ret (keyword : Token) (value? : Option Expr)
  | classDecl (name : Token) (superclasses : List Reference) (methods : List FunctionDecl)
  | importFrom (path : Token) (items : List ImportItem)
  | exported (inner : Stmt)
  | throw (keyword : Token) (value : Expr)
  | attempt (body : List Stmt) (param? : Option Token) (handler? : Option (List Stmt))
      (cleanup? : Option (List Stmt))

end

namespace FunctionDecl

/-- The name token; an arrow function has a stand-in. -/
def name : FunctionDecl → Token
  | mk name _ _ _ => name

/-- The parameters in order. -/
def params : FunctionDecl → List Token
  | mk _ params _ _ => params

/-- The statements of the body. -/
def body : FunctionDecl → List Stmt
  | mk _ _ body _ => body

/-- Whether this is an arrow function. -/
def anonymous : FunctionDecl → Bool
  | mk _ _ _ anonymous => anonymous

end FunctionDecl

instance : Inhabited FunctionDecl := ⟨.mk default [] [] true⟩
instance : Inhabited Expr := ⟨.constant 0 .null⟩
instance : Inhabited Stmt := ⟨.block []⟩

/-- The number of an expression. -/
def Expr.id : Expr → ExprId
  | .constant id _ => id
  | .reference ref => ref.id
  | .assign id _ _ => id
  | .binary id _ _ _ => id
  | .logical id _ _ _ => id
  | .unary id _ _ => id
  | .grouping id _ => id
  | .call id _ _ _ => id
  | .get id _ _ => id
  | .set id _ _ _ => id
  | .getItem id _ _ _ => id
  | .setItem id _ _ _ _ => id
  | .self id _ => id
  | .super id _ _ _ => id
  | .array id _ => id
  | .map id _ => id
  | .lambda id _ => id

end ScriptEngine
