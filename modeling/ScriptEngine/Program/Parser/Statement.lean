import ScriptEngine.Program.Parser.Expression

/-!
# The grammar of statements and declarations

A block is a list of declarations; a declaration that fails is dropped and reading resumes at
the next statement, so that one pass finds every independent error.
-/

namespace ScriptEngine.Parser

/-- A variable behind the word `var`. -/
def varDeclaration (g : Grammar) : Parser Stmt := do
  let name ← expect .identifier "Expect variable name."
  let init? ← if (← accept? .equal).isSome then some <$> g.expression else pure none
  let _ ← expect .semicolon "Expect ';' after variable declaration."
  pure (.var name init?)

/-- A function or method from its name on; `what` says which of the two. -/
def functionDeclaration (g : Grammar) (what : String) : Parser FunctionDecl := do
  let name ← expect .identifier s!"Expect {what} name."
  let _ ← expect .leftParen s!"Expect '(' after {what} name."
  let params ← parameters
  let _ ← expect .leftBrace s!"Expect '\x7b' before {what} body."
  let body ← g.block
  pure (.mk name params body false)

/-- The methods of a class up to its closing brace; `methods` holds those read so far, the
latest first. -/
def methodsUpTo (g : Grammar) : Nat → List FunctionDecl → Parser (List FunctionDecl)
  | 0, methods => pure methods.reverse
  | bound + 1, methods => do
    match (← get).rest with
    | [] => pure methods.reverse
    | t :: _ =>
      if t.kind = .rightBrace then pure methods.reverse
      else do
        let method ← functionDeclaration g "method"
        methodsUpTo g bound (method :: methods)

/-- One superclass in the head of a class. -/
def superclass : Parser Reference := do
  let name ← expect .identifier "Expect superclass name."
  pure ⟨← fresh, name⟩

/-- A class behind the word `class`. -/
def classDeclaration (g : Grammar) : Parser Stmt := do
  let name ← expect .identifier "Expect class name."
  let superclasses ←
    if (← accept? .extendsWord).isSome then commaList fun _ => superclass else pure []
  let _ ← expect .leftBrace "Expect '\x7b' before class body."
  let methods ← methodsUpTo g (← remaining) []
  let _ ← expect .rightBrace "Expect '\x7d' after class body."
  pure (.classDecl name superclasses methods)

/-- An exported declaration behind the word `export`. -/
def exportDeclaration (g : Grammar) : Parser Stmt := do
  if (← accept? .classWord).isSome then .exported <$> classDeclaration g
  else if (← accept? .functionWord).isSome then
    (.exported ∘ .function) <$> functionDeclaration g "function"
  else if (← accept? .varWord).isSome then .exported <$> varDeclaration g
  else failHere "Expect class, function or variable declaration."

/-- One imported name with its alias. -/
def importItem : Parser ImportItem := do
  let name ← expect .identifier "Expect identifier after 'import'."
  if (← accept? .asWord).isSome then
    pure ⟨name, some (← expect .identifier "Expect identifier after 'as'.")⟩
  else pure ⟨name, none⟩

/-- An import behind the word `from`. -/
def importStatement : Parser Stmt := do
  let path ← expect .string "Expect string after 'from'."
  let items ← if (← accept? .importWord).isSome then commaList fun _ => importItem else pure []
  let _ ← expect .semicolon "Expect ';' after import statement."
  if items.isEmpty then throw ⟨path, "Expect at least one import item."⟩
  pure (.importFrom path items)

/-- An expression as a statement. -/
def expressionStatement (g : Grammar) : Parser Stmt := do
  let value ← g.expression
  let _ ← expect .semicolon "Expect ';' after expression."
  pure (.expression value)

/-- A print statement behind its word. -/
def printStatement (g : Grammar) : Parser Stmt := do
  let value ← g.expression
  let _ ← expect .semicolon "Expect ';' after value."
  pure (.print value)

/-- A return statement behind its word. -/
def returnStatement (g : Grammar) (keyword : Token) : Parser Stmt := do
  let value? ← if ← check .semicolon then pure none else some <$> g.expression
  let _ ← expect .semicolon "Expect ';' after return value."
  pure (.ret keyword value?)

/-- A throw statement behind its word. -/
def throwStatement (g : Grammar) (keyword : Token) : Parser Stmt := do
  let value ← g.expression
  let _ ← expect .semicolon "Expect ';' after throw value."
  pure (.throw keyword value)

/-- The single statement that may stand in place of a block behind a condition. -/
def simpleStatement (g : Grammar) : Parser Stmt := do
  if let some keyword ← accept? .returnWord then returnStatement g keyword
  else if (← accept? .printWord).isSome then printStatement g
  else if let some keyword ← accept? .throwWord then throwStatement g keyword
  else expressionStatement g

/-- A conditional behind the word `if`. Only a block can have an `else` behind it. -/
def conditional (g : Grammar) : Nat → Parser Stmt
  | 0 => failHere "Expect '(' after 'if'."
  | bound + 1 => do
    let _ ← expect .leftParen "Expect '(' after 'if'."
    let condition ← g.expression
    let _ ← expect .rightParen "Expect ')' after if condition."
    if (← accept? .leftBrace).isSome then
      let thenPart ← g.block
      if (← accept? .elseWord).isSome then
        if (← accept? .ifWord).isSome then
          let elsePart ← conditional g bound
          pure (.branch condition (.block thenPart) (some elsePart))
        else
          let _ ← expect .leftBrace "Expect '\x7b' after 'else'."
          let elsePart ← g.block
          pure (.branch condition (.block thenPart) (some (.block elsePart)))
      else pure (.branch condition (.block thenPart) none)
    else
      let thenPart ← simpleStatement g
      pure (.branch condition thenPart none)

/-- A while loop behind its word. -/
def whileStatement (g : Grammar) : Parser Stmt := do
  let _ ← expect .leftParen "Expect '(' after 'while'."
  let condition ← g.expression
  let _ ← expect .rightParen "Expect ')' after while condition."
  let _ ← expect .leftBrace "Expect '\x7b' after while condition."
  let body ← g.block
  pure (.loop condition (.block body))

/-- The first clause of a for loop. -/
def forInit (g : Grammar) : Parser (Option Stmt) := do
  if (← accept? .semicolon).isSome then pure none
  else if (← accept? .varWord).isSome then some <$> varDeclaration g
  else some <$> expressionStatement g

/-- The loop that a for statement stands for: the first clause runs once, in a block of its own
with the loop; the last clause runs behind the body in every round. -/
def forLoop (init? : Option Stmt) (condition : Expr) (step? : Option Expr) (body : List Stmt) :
    Stmt :=
  let round :=
    match step? with
    | some step => Stmt.block [.block body, .expression step]
    | none => .block body
  match init? with
  | some init => .block [init, .loop condition round]
  | none => .loop condition round

/-- A for loop behind its word. A missing condition always holds. -/
def forStatement (g : Grammar) : Parser Stmt := do
  let _ ← expect .leftParen "Expect '(' after 'for'."
  let init? ← forInit g
  let condition ←
    if ← check .semicolon then pure (.constant (← fresh) (.boolean true)) else g.expression
  let _ ← expect .semicolon "Expect ';' after loop condition."
  let step? ← if ← check .rightParen then pure none else some <$> g.expression
  let _ ← expect .rightParen "Expect ')' after for clauses."
  let _ ← expect .leftBrace "Expect '\x7b' after for clauses."
  let body ← g.block
  pure (forLoop init? condition step? body)

/-- The handler of a try statement: its parameter and its block. -/
def catchClause (g : Grammar) : Parser (Option Token × List Stmt) := do
  let _ ← expect .leftParen "Expect '(' after catch."
  let param? ← accept? .identifier
  let _ ← expect .rightParen "Expect ')' after catch parameter."
  let _ ← expect .leftBrace "Expect '\x7b' after catch parameter."
  pure (param?, ← g.block)

/-- A try statement behind its word. -/
def tryStatement (g : Grammar) : Parser Stmt := do
  let _ ← expect .leftBrace "Expect '\x7b' after try."
  let body ← g.block
  let handler? ← if (← accept? .catchWord).isSome then some <$> catchClause g else pure none
  let cleanup? ←
    if (← accept? .finallyWord).isSome then do
      let _ ← expect .leftBrace "Expect '\x7b' after finally."
      some <$> g.block
    else pure none
  if handler?.isNone && cleanup?.isNone then failHere "Expect catch or finally block."
  pure (.attempt body (handler?.bind (·.1)) (handler?.map (·.2)) cleanup?)

/-- A statement. -/
def statement (g : Grammar) : Parser Stmt := do
  if (← accept? .fromWord).isSome then importStatement
  else if (← accept? .ifWord).isSome then conditional g (← remaining)
  else if (← accept? .whileWord).isSome then whileStatement g
  else if (← accept? .forWord).isSome then forStatement g
  else if (← accept? .printWord).isSome then printStatement g
  else if let some keyword ← accept? .returnWord then returnStatement g keyword
  else if let some keyword ← accept? .throwWord then throwStatement g keyword
  else if (← accept? .tryWord).isSome then tryStatement g
  else if (← accept? .leftBrace).isSome then .block <$> g.block
  else expressionStatement g

/-- A declaration or statement. -/
def declaration (g : Grammar) : Parser Stmt := do
  if (← accept? .exportWord).isSome then exportDeclaration g
  else if (← accept? .classWord).isSome then classDeclaration g
  else if (← accept? .functionWord).isSome then .function <$> functionDeclaration g "function"
  else if (← accept? .varWord).isSome then varDeclaration g
  else statement g

/-- Declarations up to the end of the source or, inside a block, up to its closing brace.
Failing ones are dropped; `done` holds the others read so far, the latest first. -/
def declarationsUpTo (g : Grammar) (inBlock : Bool) : Nat → List Stmt → Parser (List Stmt)
  | 0, done => pure done.reverse
  | bound + 1, done => do
    match (← get).rest with
    | [] => pure done.reverse
    | t :: _ =>
      if inBlock && t.kind = .rightBrace then pure done.reverse
      else do
        let next? ← recovering (declaration g)
        declarationsUpTo g inBlock bound (next?.toList ++ done)

/-- The rest of a block behind its opening brace. -/
def block (g : Grammar) : Parser (List Stmt) := do
  let body ← declarationsUpTo g true (← remaining) []
  let _ ← expect .rightBrace "Expect '\x7d' after block."
  pure body

end ScriptEngine.Parser
