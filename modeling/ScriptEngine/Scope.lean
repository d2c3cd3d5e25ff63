import ScriptEngine.Program

/-!
# Scopes

Which scope each name of a program belongs to. Names are looked up from the innermost scope
outward; the number of scopes passed on the way is the distance of the reference, and a name
found in no scope is global and has none. The same walk finds the errors that can be told from
the text alone.

Scopes are handed down, innermost first, and a statement hands on only what it declares in the
innermost one. What is found adds up: the findings of a list of statements are those of its
members in order.
-/

namespace ScriptEngine

/-- Why a program is refused before it runs. -/
inductive ScopeFault where
  | duplicateInScope
  | readInOwnInitializer
  | topLevelReturn
  | returnFromInitializer
  | thisOutsideClass
  | superOutsideClass
  | superWithoutSuperclass
  | inheritsFromItself
deriving DecidableEq

/-- A scope error at a token. -/
structure ScopeError where
  fault : ScopeFault
  token : Token

/-- The text of a scope error. -/
def ScopeFault.message : ScopeFault → String
  | duplicateInScope => "Already a variable with this name in this scope."
  | readInOwnInitializer => "Can't read local variable in its own initializer."
  | topLevelReturn => "Can't return from top-level code."
  | returnFromInitializer => "Can't return a value from an initializer."
  | thisOutsideClass => "Can't use 'this' outside of a class."
  | superOutsideClass => "Can't use 'super' outside of a class."
  | superWithoutSuperclass => "Can't use 'super' in a class with no superclass."
  | inheritsFromItself => "A class can't inherit from itself."

/-- The name under which the body of a class sees one of its superclasses. -/
def superBinding (className : String) : String :=
  "super(" ++ className ++ ")"

namespace Scope

/-- The function that surrounds a piece of program. -/
inductive FunctionContext where
  | none | function | initializer | method
deriving DecidableEq

/-- The class that surrounds a piece of program. -/
inductive ClassContext where
  | none | plain | subclass
deriving DecidableEq

/-- What surrounds a piece of program. -/
structure Context where
  function : FunctionContext
  cls : ClassContext

/-- One scope: its names, the latest first, each with whether it may be read already. -/
abbrev Layer := List (String × Bool)

/-- Whether a scope has a name. -/
def Layer.has (layer : Layer) (name : String) : Bool :=
  layer.any (·.1 == name)

/-- What a walk over a piece of program finds. -/
structure Findings where
  distances : List (ExprId × Nat)
  errors : List ScopeError

namespace Findings

/-- Nothing found. -/
def nothing : Findings := ⟨[], []⟩

/-- A single error. -/
def error (fault : ScopeFault) (token : Token) : Findings := ⟨[], [⟨fault, token⟩]⟩

instance : Append Findings := ⟨fun a b => ⟨a.distances ++ b.distances, a.errors ++ b.errors⟩⟩

end Findings

/-- The error of declaring a name that the innermost scope has already. -/
def declareFindings (scopes : List Layer) (name : Token) : Findings :=
  match scopes with
  | layer :: _ => if layer.has name.lexeme then .error .duplicateInScope name else .nothing
  | [] => .nothing

/-- The scopes with a name added to the innermost one. Outside all scopes names are global and
nothing is recorded. -/
def bind (scopes : List Layer) (name : String) (ready : Bool) : List Layer :=
  match scopes with
  | layer :: outer => ((name, ready) :: layer) :: outer
  | [] => []

/-- Declares a list of names that may be read at once. -/
def bindAll (scopes : List Layer) : List Token → List Layer × Findings
  | [] => (scopes, .nothing)
  | name :: names =>
    let rest := bindAll (bind scopes name.lexeme true) names
    (rest.1, declareFindings scopes name ++ rest.2)

/-- The distance of the innermost scope that has a name. -/
def distance? (scopes : List Layer) (name : String) : Option Nat :=
  scopes.findIdx? (·.has name)

/-- Records the distance of a use of `name` under the number of its expression. -/
def record (scopes : List Layer) (id : ExprId) (name : String) : Findings :=
  match distance? scopes name with
  | some d => ⟨[(id, d)], []⟩
  | none => .nothing

/-- A name that is read. It must not be read in the innermost scope before it is ready. -/
def readName (scopes : List Layer) (ref : Reference) : Findings :=
  let own :=
    match scopes with
    | layer :: _ =>
      if layer.lookup ref.name.lexeme = some false then .error .readInOwnInitializer ref.name
      else .nothing
    | [] => .nothing
  own ++ record scopes ref.id ref.name.lexeme

/-- The superclasses in the head of a class. -/
def superclasses (scopes : List Layer) (className : Token) : List Reference → Findings
  | [] => .nothing
  | ref :: refs =>
    (if ref.name.lexeme == className.lexeme then .error .inheritsFromItself ref.name
      else .nothing) ++ readName scopes ref ++ superclasses scopes className refs

/-- The scope in which the methods of a subclass find their superclasses. -/
def superLayer (refs : List Reference) : Layer :=
  ("super", true) :: refs.map fun ref => (superBinding ref.name.lexeme, true)

/-- The scopes around the methods of a class. -/
def classScopes (scopes : List Layer) (refs : List Reference) : List Layer :=
  let outer := if refs.isEmpty then scopes else superLayer refs :: scopes
  [("this", true)] :: outer

mutual

/-- The findings of an expression. -/
def expr (ctx : Context) (scopes : List Layer) : Expr → Findings
  | .constant _ _ => .nothing
  | .reference ref => readName scopes ref
  | .assign id name value => expr ctx scopes value ++ record scopes id name.lexeme
  | .binary _ left _ right => expr ctx scopes left ++ expr ctx scopes right
  | .logical _ left _ right => expr ctx scopes left ++ expr ctx scopes right
  | .unary _ _ operand => expr ctx scopes operand
  | .grouping _ inner => expr ctx scopes inner
  | .call _ callee _ arguments => expr ctx scopes callee ++ exprs ctx scopes arguments
  | .get _ object _ => expr ctx scopes object
  | .set _ object _ value => expr ctx scopes value ++ expr ctx scopes object
  | .getItem _ object _ index => expr ctx scopes object ++ expr ctx scopes index
  | .setItem _ object index _ value =>
    expr ctx scopes object ++ expr ctx scopes index ++ expr ctx scopes value
  | .self id keyword =>
    if ctx.cls = .none then .error .thisOutsideClass keyword
    else record scopes id keyword.lexeme
  | .super id keyword _ _ =>
    (match ctx.cls with
      | .none => .error .superOutsideClass keyword
      | .plain => .error .superWithoutSuperclass keyword
      | .subclass => .nothing) ++ record scopes id keyword.lexeme
  | .array _ elements => exprs ctx scopes elements
  | .map _ entries => mapEntries ctx scopes entries
  | .lambda _ decl => function ctx scopes .function decl

/-- The findings of a list of expressions. -/
def exprs (ctx : Context) (scopes : List Layer) : List Expr → Findings
  | [] => .nothing
  | e :: es => expr ctx scopes e ++ exprs ctx scopes es

/-- The findings of the values of a map. -/
def mapEntries (ctx : Context) (scopes : List Layer) : List (Token × Expr) → Findings
  | [] => .nothing
  | (_, e) :: es => expr ctx scopes e ++ mapEntries ctx scopes es

/-- The findings of an optional expression. -/
def expr? (ctx : Context) (scopes : List Layer) : Option Expr → Findings
  | none => .nothing
  | some e => expr ctx scopes e

/-- The findings of a function: a scope of its own holds the parameters and the body. -/
def function (ctx : Context) (scopes : List Layer) (kind : FunctionContext) :
    FunctionDecl → Findings
  | .mk _ params body _ =>
    let inner := bindAll ([] :: scopes) params
    inner.2 ++ (stmts { ctx with function := kind } inner.1 body).2

/-- The findings of the methods of a class. -/
def methods (ctx : Context) (scopes : List Layer) : List FunctionDecl → Findings
  | [] => .nothing
  | decl :: decls =>
    function ctx scopes (if decl.name.lexeme == "init" then .initializer else .method) decl ++
      methods ctx scopes decls

/-- The scopes after a statement, and its findings. -/
def stmt (ctx : Context) (scopes : List Layer) : Stmt → List Layer × Findings
  | .expression value => (scopes, expr ctx scopes value)
  | .print value => (scopes, expr ctx scopes value)
  | .var name init? =>
    let declared := bind scopes name.lexeme false
    (bind declared name.lexeme true,
      declareFindings scopes name ++ expr? ctx declared init?)
  | .block body => (scopes, (stmts ctx ([] :: scopes) body).2)
  | .branch condition thenPart elsePart? =>
    let thenResult := stmt ctx scopes thenPart
    let elseResult := stmt? ctx thenResult.1 elsePart?
    (elseResult.1, expr ctx scopes condition ++ thenResult.2 ++ elseResult.2)
  | .loop condition body =>
    let result := stmt ctx scopes body
    (result.1, expr ctx scopes condition ++ result.2)
  | .function decl =>
    let after := bind scopes decl.name.lexeme true
    (after, declareFindings scopes decl.name ++ function ctx after .function decl)
  | .ret keyword value? =>
    (scopes,
      (if ctx.function = .none then .error .topLevelReturn keyword else .nothing) ++
      (if value?.isSome ∧ ctx.function = .initializer then .error .returnFromInitializer keyword
        else .nothing) ++
      expr? ctx scopes value?)
  | .classDecl name refs decls =>
    let after := bind scopes name.lexeme true
    let cls := if refs.isEmpty then .plain else .subclass
    (after,
      declareFindings scopes name ++ superclasses after name refs ++
        methods { ctx with cls := cls } (classScopes after refs) decls)
  | .importFrom _ items => bindAll scopes (items.map (·.binding))
  | .exported inner => stmt ctx scopes inner
  | .throw _ value => (scopes, expr ctx scopes value)
  | .attempt body param? handler? cleanup? =>
    let catchScopes := bindAll ([] :: scopes) param?.toList
    (scopes,
      (stmts ctx ([] :: scopes) body).2 ++
        (if handler?.isSome then catchScopes.2 else .nothing) ++
        stmts? ctx catchScopes.1 handler? ++
        stmts? ctx ([] :: scopes) cleanup?)

/-- The scopes after an optional statement, and its findings. -/
def stmt? (ctx : Context) (scopes : List Layer) : Option Stmt → List Layer × Findings
  | none => (scopes, .nothing)
  | some s => stmt ctx scopes s

/-- The scopes after a list of statements, and their findings. -/
def stmts (ctx : Context) (scopes : List Layer) : List Stmt → List Layer × Findings
  | [] => (scopes, .nothing)
  | s :: ss =>
    let first := stmt ctx scopes s
    let rest := stmts ctx first.1 ss
    (rest.1, first.2 ++ rest.2)

/-- The findings of an optional list of statements. -/
def stmts? (ctx : Context) (scopes : List Layer) : Option (List Stmt) → Findings
  | none => .nothing
  | some ss => (stmts ctx scopes ss).2

end

/-- The findings of a whole program. -/
def findings (program : List Stmt) : Findings :=
  (stmts ⟨.none, .none⟩ [] program).2

/-- The distances of all local references of a program, or every scope error in order. -/
def resolve (program : List Stmt) : Except (List ScopeError) (List (ExprId × Nat)) :=
  let found := findings program
  if found.errors.isEmpty then .ok found.distances else .error found.errors

end Scope

end ScriptEngine
