import Mathlib
import ScriptEngine.Program.Parser

/-!
# Reading a program by position

`parse` takes tokens from the front of a list, and bounds on depth and rounds make it end. A program
can also be read with a position that moves over the tokens and without any bounds. Then two things
may go wrong: a token may be asked for at a position where there is none, and reading may go on for
ever. Here the first is a mishap of its own that nothing recovers from, and a reader that goes on
for ever has no outcome: the functions below are least solutions of their equations.
-/

namespace ScriptEngine.Parser.Position

/-- Tokens, the position of the next one, the errors noted so far and the number of the next
expression. -/
structure Cursor where
  tokens : List Token
  current : Nat
  errors : List SyntaxError
  nextId : ExprId

/-- What keeps a reader from giving a value: a syntax error, or a position outside the tokens. -/
inductive Mishap where
  | failed (error : SyntaxError)
  | outside

/-- A production that reads by position. It has an outcome only if it comes to an end. -/
abbrev Reader := ExceptT Mishap (StateT Cursor Option)

/-- The cursor before the first token. If the last token is no end, one is put behind it. -/
def start (firstId : ExprId) (tokens : List Token) : Cursor :=
  let tokens :=
    if tokens.getLast?.map (·.kind) = some .eof then tokens
    else tokens ++ [Token.endOf ((tokens.getLast?.map (·.line)).getD 1)]
  { tokens := tokens, current := 0, errors := [], nextId := firstId }

/-! ## Primitive steps -/

/-- The token at a position. -/
def tokenAt (i : Nat) : Reader Token := do
  match (← get).tokens[i]? with
  | some t => pure t
  | none => throw .outside

/-- The next token. -/
def peek : Reader Token := do
  tokenAt (← get).current

/-- The token in front of the next one. At the first position it is that one itself. -/
def previous : Reader Token := do
  tokenAt ((← get).current - 1)

/-- The token a number of positions behind the next one, or the last of all. -/
def peekNth (n : Nat) : Reader Token := do
  let c ← get
  tokenAt (min (c.current + n) (c.tokens.length - 1))

/-- Whether the next token is an end. -/
def isAtEnd : Reader Bool := do
  pure ((← peek).kind = .eof)

/-- Whether the next token is of a kind and no end. -/
def check (kind : TokenKind) : Reader Bool := do
  if ← isAtEnd then pure false
  else pure ((← peek).kind = kind)

/-- Moves behind the next token unless that is an end, and gives the token in front then. -/
def advance : Reader Token := do
  if ← isAtEnd then previous
  else
    modify fun c => { c with current := c.current + 1 }
    previous

/-- Reads a token of a kind, if one comes next. -/
def matchToken (kind : TokenKind) : Reader Bool := do
  if ← check kind then
    let _ ← advance
    pure true
  else pure false

/-- Reads a token of one of some kinds, if one comes next. -/
def matchAny : List TokenKind → Reader Bool
  | [] => pure false
  | kind :: kinds => do
    if ← matchToken kind then pure true
    else matchAny kinds

/-- Fails at the next token. -/
def failHere {α : Type} (message : String) : Reader α := do
  throw (.failed ⟨← peek, message⟩)

/-- Reads a token of a kind or fails at the next token. -/
def consume (kind : TokenKind) (message : String) : Reader Token := do
  if ← check kind then advance
  else failHere message

/-- Notes an error and goes on. -/
def note (e : SyntaxError) : Reader Unit :=
  modify fun c => { c with errors := c.errors ++ [e] }

/-- A number for a new expression. -/
def fresh : Reader ExprId := do
  let c ← get
  set { c with nextId := c.nextId + 1 }
  pure c.nextId

/-- Notes an error at the next token if `count` items leave no room for another one. -/
def checkRoom (count : Nat) (message : String) : Reader Unit := do
  if count ≥ maxArguments then note ⟨← peek, message⟩

/-- The cursor with the position moved on by one. -/
def Cursor.next (c : Cursor) : Cursor := { c with current := c.current + 1 }

/-! ## Sequencing -/

section

variable {α β : Type} {c c' : Cursor} {r : Reader α} {f : α → Reader β}

/-- Reading goes on from where the first reader has left the position. -/
theorem bind_of_ok {a : α} (h : r c = some (.ok a, c')) : (r >>= f) c = f a c' := by
  show (r c).bind _ = _
  rw [h]
  rfl

/-- A mishap of the first reader ends both. -/
theorem bind_of_error {e : Mishap} (h : r c = some (.error e, c')) :
    (r >>= f) c = some (.error e, c') := by
  show (r c).bind _ = _
  rw [h]
  rfl

/-- Looking for one of a single kind is looking for that kind. -/
theorem matchAny_singleton (kind : TokenKind) : matchAny [kind] = matchToken kind := by
  have hpure : (fun found => if found = true then pure true else matchAny []) =
      (pure : Bool → Reader Bool) := by
    funext found
    cases found <;> rfl
  rw [matchAny, hpure, bind_pure]

/-- A token that is there can be looked at. -/
theorem tokenAt_of_some {i : Nat} {t : Token} (h : c.tokens[i]? = some t) :
    tokenAt i c = some (.ok t, c) := by
  have hget : (get : Reader Cursor) c = some (.ok c, c) := rfl
  rw [tokenAt, bind_of_ok hget, h]
  rfl

end

/-! ## The language -/

/-- A level of operators that group to the left, and the expressions that they make. -/
structure Level where
  operators : List TokenKind
  build : ExprId → Expr → Token → Expr → Expr

/-- A language is told by its levels of operators, loosest first. Its productions are readers, and
each calls the others. -/
structure Language where
  levels : List Level

/-- The language of scripts. -/
def script : Language :=
  ⟨[⟨[.or], .logical⟩, ⟨[.and], .logical⟩, ⟨equalityOperators, .binary⟩,
    ⟨comparisonOperators, .binary⟩, ⟨termOperators, .binary⟩, ⟨factorOperators, .binary⟩,
    ⟨[.caret], .binary⟩]⟩

/-! ## Recovery -/

/-- Moves on until a semicolon stands in front or the beginning of a statement comes next. -/
def Language.skip (lang : Language) : Reader Unit := do
  if ← isAtEnd then pure ()
  else if (← previous).kind = .semicolon then pure ()
  else if resumesAt (← peek).kind then pure ()
  else
    let _ ← advance
    lang |>.skip
partial_fixpoint

/-- Skips the token at which an error arose and everything up to the next statement. -/
def Language.synchronize (lang : Language) : Reader Unit := do
  let _ ← advance
  lang |>.skip

/-- What becomes of a declaration: one that failed is noted and skipped. -/
def Language.recovered (lang : Language) : Except Mishap Stmt → Reader (Option Stmt)
  | .ok s => pure (some s)
  | .error (.failed e) => do
    note e
    lang |>.synchronize
    pure none
  | .error .outside => throw .outside

/-! ## Lists of names -/

/-- The parameters from the next one on, behind those in `params`. -/
def Language.parametersFrom (lang : Language) (params : List Token) : Reader (List Token) := do
  checkRoom params.length "Can't have more than 255 parameters."
  let param ← consume .identifier "Expect parameter name."
  if ← matchToken .comma then lang |>.parametersFrom (params ++ [param])
  else pure (params ++ [param])
partial_fixpoint

/-- A parameter list behind its opening parenthesis, and the closing one. -/
def Language.parameters (lang : Language) : Reader (List Token) := do
  let params ← if ← check .rightParen then pure [] else lang |>.parametersFrom []
  let _ ← consume .rightParen "Expect ')' after parameters."
  pure params

/-- One superclass in the head of a class. -/
def superclass : Reader Reference := do
  let name ← consume .identifier "Expect superclass name."
  let id ← fresh
  pure ⟨id, name⟩

/-- The superclasses from the next one on, behind those in `refs`. -/
def Language.superclassesFrom (lang : Language) (refs : List Reference) :
    Reader (List Reference) := do
  let ref ← superclass
  if ← matchToken .comma then lang |>.superclassesFrom (refs ++ [ref])
  else pure (refs ++ [ref])
partial_fixpoint

/-- One imported name with its alias. -/
def importItem : Reader ImportItem := do
  let name ← consume .identifier "Expect identifier after 'import'."
  if ← matchToken .asWord then
    let other ← consume .identifier "Expect identifier after 'as'."
    pure ⟨name, some other⟩
  else pure ⟨name, none⟩

/-- The imported names from the next one on, behind those in `items`. -/
def Language.importItemsFrom (lang : Language) (items : List ImportItem) :
    Reader (List ImportItem) := do
  let item ← importItem
  if ← matchToken .comma then lang |>.importItemsFrom (items ++ [item])
  else pure (items ++ [item])
partial_fixpoint

/-- An import behind the word `from`. -/
def Language.importStatement (lang : Language) : Reader Stmt := do
  let path ← consume .string "Expect string after 'from'."
  let items ← if ← matchToken .importWord then lang |>.importItemsFrom [] else pure []
  let _ ← consume .semicolon "Expect ';' after import statement."
  if items.isEmpty then throw (.failed ⟨path, "Expect at least one import item."⟩)
  else pure (.importFrom path items)

/-! ## Looking ahead -/

/-- The offset behind any number of commas with a name behind each. -/
def Language.namesEnd (lang : Language) (offset : Nat) : Reader Nat := do
  if (← peekNth offset).kind = .comma then
    if (← peekNth (offset + 1)).kind = .identifier then lang |>.namesEnd (offset + 2)
    else pure offset
  else pure offset
partial_fixpoint

/-- Whether names in parentheses and an arrow come next. -/
def Language.arrowAhead (lang : Language) : Reader Bool := do
  if ← check .leftParen then
    let offset ← if (← peekNth 1).kind = .identifier then lang |>.namesEnd 2 else pure 1
    if (← peekNth offset).kind = .rightParen then
      let t ← peekNth (offset + 1)
      pure (t.kind = .arrow)
    else pure false
  else pure false

/-- The head of an arrow function up to its arrow. Nothing is read unless one comes next. -/
def Language.arrowParameters (lang : Language) : Reader (Option (List Token)) := do
  if ← matchToken .arrow then pure (some [])
  else if ← lang |>.arrowAhead then
    let _ ← advance
    let params ← lang |>.parameters
    let _ ← consume .arrow "Expect '->' after parameters."
    pure (some params)
  else pure none

/-! ## Expressions without parts -/

/-- An expression with a number of its own. -/
def numbered (make : ExprId → Expr) : Reader Expr := do
  let id ← fresh
  pure (make id)

/-- The assignment of a value to what an expression denotes. -/
def assignTo (target : Expr) (equals : Token) (value : Expr) : Reader Expr :=
  match target with
  | .reference ref => numbered fun id => .assign id ref.name value
  | .get _ object name => numbered fun id => .set id object name value
  | .getItem _ object _ index => numbered fun id => .setItem id object index equals value
  | other => do
    note ⟨equals, "Invalid assignment target."⟩
    pure other

/-- A method of a superclass, behind the word `super`. -/
def superAccess : Reader Expr := do
  let keyword ← previous
  let _ ← consume .leftParen "Expect '(' after super"
  let className ← consume .identifier "Expect superclass name."
  let _ ← consume .rightParen "Expect ')' after superclass name."
  let _ ← consume .dot "Expect '.' after 'super' call."
  let method ← consume .identifier "Expect superclass method name."
  numbered fun id => .super id keyword className method

/-! ## The grammar -/

mutual

/-- An expression. -/
def Language.expression (lang : Language) : Reader Expr := do
  let target ← lang |>.binaryLevel lang.levels
  if ← matchToken .equal then
    let equals ← previous
    let value ← lang |>.expression
    assignTo target equals value
  else pure target
partial_fixpoint

/-- An expression of the first of some levels. -/
def Language.binaryLevel (lang : Language) (ls : List Level) : Reader Expr :=
  match ls with
  | [] => lang |>.unary
  | l :: tighter => do
    let first ← lang |>.binaryLevel tighter
    lang |>.binaryTail l tighter first
partial_fixpoint

/-- The rest of a level behind its first operand `left`. -/
def Language.binaryTail (lang : Language) (l : Level) (tighter : List Level) (left : Expr) :
    Reader Expr := do
  if ← matchAny l.operators then
    let operator ← previous
    let right ← lang |>.binaryLevel tighter
    let id ← fresh
    lang |>.binaryTail l tighter (l.build id left operator right)
  else pure left
partial_fixpoint

/-- Unary operators in front of a call. -/
def Language.unary (lang : Language) : Reader Expr := do
  if ← matchAny [.bang, .minus] then
    let operator ← previous
    let operand ← lang |>.unary
    numbered fun id => .unary id operator operand
  else lang |>.call
partial_fixpoint

/-- A primary expression with everything that is called, read or indexed on it. -/
def Language.call (lang : Language) : Reader Expr := do
  let e ← lang |>.primary
  lang |>.callTail e
partial_fixpoint

/-- Calls, properties and indices behind an expression. -/
def Language.callTail (lang : Language) (e : Expr) : Reader Expr := do
  if ← matchToken .leftParen then
    let called ← lang |>.finishCall e
    lang |>.callTail called
  else if ← matchToken .dot then
    let name ← consume .identifier "Expect property name after '.'."
    let id ← fresh
    lang |>.callTail (.get id e name)
  else if ← matchToken .leftBracket then
    let index ← lang |>.expression
    let bracket ← consume .rightBracket "Expect ']' after array index."
    let id ← fresh
    lang |>.callTail (.getItem id e bracket index)
  else pure e
partial_fixpoint

/-- The arguments of a call behind the opening parenthesis. -/
def Language.finishCall (lang : Language) (callee : Expr) : Reader Expr := do
  let arguments ← if ← check .rightParen then pure [] else lang |>.argumentsFrom []
  let paren ← consume .rightParen "Expect ')' after arguments."
  numbered fun id => .call id callee paren arguments
partial_fixpoint

/-- The arguments from the next one on, behind those in `arguments`. -/
def Language.argumentsFrom (lang : Language) (arguments : List Expr) : Reader (List Expr) := do
  checkRoom arguments.length "Can't have more than 255 arguments."
  let argument ← lang |>.expression
  if ← matchToken .comma then lang |>.argumentsFrom (arguments ++ [argument])
  else pure (arguments ++ [argument])
partial_fixpoint

/-- A primary expression. -/
def Language.primary (lang : Language) : Reader Expr := do
  if ← matchToken .falseWord then numbered fun id => .constant id (.boolean false)
  else if ← matchToken .trueWord then numbered fun id => .constant id (.boolean true)
  else if ← matchToken .nullWord then numbered fun id => .constant id .null
  else if ← matchAny [.number, .string] then
    let t ← previous
    numbered fun id => .constant id (tokenConstant t)
  else if ← matchToken .superWord then superAccess
  else if ← matchToken .thisWord then
    let keyword ← previous
    numbered fun id => .self id keyword
  else
    let params? ← lang |>.arrowParameters
    match params? with
    | some params => lang |>.arrowFunction params
    | none => lang |>.primaryRest
partial_fixpoint

/-- A primary expression that begins with a bracket, a name, a parenthesis or a brace. -/
def Language.primaryRest (lang : Language) : Reader Expr := do
  if ← matchToken .leftBracket then
    let elements ← if ← check .rightBracket then pure [] else lang |>.elementsFrom []
    let _ ← consume .rightBracket "Expect ']' after array elements."
    numbered fun id => .array id elements
  else if ← matchToken .identifier then
    let name ← previous
    numbered fun id => .reference ⟨id, name⟩
  else if ← matchToken .leftParen then
    let inner ← lang |>.expression
    let _ ← consume .rightParen "Expect ')' after expression."
    numbered fun id => .grouping id inner
  else if ← matchToken .leftBrace then
    let entries ← if ← check .rightBrace then pure [] else lang |>.entriesFrom []
    let _ ← consume .rightBrace "Expect '\x7d' after object properties."
    numbered fun id => .map id entries
  else failHere "Expect expression."
partial_fixpoint

/-- The elements of an array from the next one on, behind those in `elements`. -/
def Language.elementsFrom (lang : Language) (elements : List Expr) : Reader (List Expr) := do
  let element ← lang |>.expression
  if ← matchToken .comma then lang |>.elementsFrom (elements ++ [element])
  else pure (elements ++ [element])
partial_fixpoint

/-- One entry of a map: a name and a value. -/
def Language.mapEntry (lang : Language) : Reader (Token × Expr) := do
  let key ← consume .identifier "Expect property name."
  let _ ← consume .colon "Expect ':' after property name."
  let value ← lang |>.expression
  pure (key, value)
partial_fixpoint

/-- The entries of a map from the next one on, with those in `entries`. -/
def Language.entriesFrom (lang : Language) (entries : List (Token × Expr)) :
    Reader (List (Token × Expr)) := do
  let entry ← lang |>.mapEntry
  if ← matchToken .comma then lang |>.entriesFrom (putEntry entries entry)
  else pure (putEntry entries entry)
partial_fixpoint

/-- An arrow function behind its arrow. -/
def Language.arrowFunction (lang : Language) (params : List Token) : Reader Expr := do
  let arrow ← previous
  let body ← lang |>.arrowBody arrow.line
  numbered fun id => .lambda id (.mk (Token.named "anonymous" arrow.line) params body true)
partial_fixpoint

/-- What stands behind an arrow: a block, one `return` or `print`, or an expression whose value is
returned. -/
def Language.arrowBody (lang : Language) (line : Nat) : Reader (List Stmt) := do
  if ← matchToken .leftBrace then lang |>.block
  else if ← matchToken .returnWord then
    let s ← lang |>.returnStatement false
    pure [s]
  else if ← matchToken .printWord then
    let s ← lang |>.printStatement false
    pure [s]
  else
    let value ← lang |>.expression
    pure [.ret ⟨.returnWord, "return", none, line⟩ (some value)]
partial_fixpoint

/-- The statements of a block behind its opening brace, and the closing brace. -/
def Language.block (lang : Language) : Reader (List Stmt) := do
  let body ← lang |>.blockFrom []
  let _ ← consume .rightBrace "Expect '\x7d' after block."
  pure body
partial_fixpoint

/-- The declarations up to the end of a block, behind those in `body`. -/
def Language.blockFrom (lang : Language) (body : List Stmt) : Reader (List Stmt) := do
  if ← check .rightBrace then pure body
  else if ← isAtEnd then pure body
  else
    let next? ← lang |>.declaration
    lang |>.blockFrom (body ++ next?.toList)
partial_fixpoint

/-- A declaration or statement; one that fails is noted and skipped. -/
def Language.declaration (lang : Language) : Reader (Option Stmt) := fun c => do
  let (outcome, c) ← lang |>.attempted c
  lang |>.recovered outcome c
partial_fixpoint

/-- A declaration or statement. -/
def Language.attempted (lang : Language) : Reader Stmt := do
  if ← matchToken .exportWord then lang |>.exportDeclaration
  else if ← matchToken .classWord then lang |>.classDeclaration
  else if ← matchToken .functionWord then
    let decl ← lang |>.functionDeclaration "function"
    pure (.function decl)
  else if ← matchToken .varWord then lang |>.varDeclaration
  else lang |>.statement
partial_fixpoint

/-- An exported declaration behind the word `export`. -/
def Language.exportDeclaration (lang : Language) : Reader Stmt := do
  if ← matchToken .classWord then
    let s ← lang |>.classDeclaration
    pure (.exported s)
  else if ← matchToken .functionWord then
    let decl ← lang |>.functionDeclaration "function"
    pure (.exported (.function decl))
  else if ← matchToken .varWord then
    let s ← lang |>.varDeclaration
    pure (.exported s)
  else failHere "Expect class, function or variable declaration."
partial_fixpoint

/-- A class behind the word `class`. -/
def Language.classDeclaration (lang : Language) : Reader Stmt := do
  let name ← consume .identifier "Expect class name."
  let superclasses ← if ← matchToken .extendsWord then lang |>.superclassesFrom [] else pure []
  let _ ← consume .leftBrace "Expect '\x7b' before class body."
  let methods ← lang |>.methodsFrom []
  let _ ← consume .rightBrace "Expect '\x7d' after class body."
  pure (.classDecl name superclasses methods)
partial_fixpoint

/-- The methods up to the end of a class, behind those in `methods`. -/
def Language.methodsFrom (lang : Language) (methods : List FunctionDecl) :
    Reader (List FunctionDecl) := do
  if ← check .rightBrace then pure methods
  else if ← isAtEnd then pure methods
  else
    let method ← lang |>.functionDeclaration "method"
    lang |>.methodsFrom (methods ++ [method])
partial_fixpoint

/-- A function or method from its name on; `what` says which of the two. -/
def Language.functionDeclaration (lang : Language) (what : String) : Reader FunctionDecl := do
  let name ← consume .identifier s!"Expect {what} name."
  let _ ← consume .leftParen s!"Expect '(' after {what} name."
  let params ← lang |>.parameters
  let _ ← consume .leftBrace s!"Expect '\x7b' before {what} body."
  let body ← lang |>.block
  pure (.mk name params body false)
partial_fixpoint

/-- A variable behind the word `var`. -/
def Language.varDeclaration (lang : Language) : Reader Stmt := do
  let name ← consume .identifier "Expect variable name."
  let init? ←
    if ← matchToken .equal then do
      let value ← lang |>.expression
      pure (some value)
    else pure none
  let _ ← consume .semicolon "Expect ';' after variable declaration."
  pure (.var name init?)
partial_fixpoint

/-- A statement. -/
def Language.statement (lang : Language) : Reader Stmt := do
  if ← matchToken .fromWord then lang |>.importStatement
  else if ← matchToken .ifWord then lang |>.ifStatement
  else if ← matchToken .whileWord then lang |>.whileStatement
  else if ← matchToken .forWord then lang |>.forStatement
  else if ← matchToken .printWord then lang |>.printStatement true
  else if ← matchToken .returnWord then lang |>.returnStatement true
  else if ← matchToken .throwWord then lang |>.throwStatement
  else if ← matchToken .tryWord then lang |>.tryStatement
  else if ← matchToken .leftBrace then
    let body ← lang |>.block
    pure (.block body)
  else lang |>.expressionStatement
partial_fixpoint

/-- A conditional behind the word `if`. -/
def Language.ifStatement (lang : Language) : Reader Stmt := do
  let _ ← consume .leftParen "Expect '(' after 'if'."
  let condition ← lang |>.expression
  let _ ← consume .rightParen "Expect ')' after if condition."
  if ← matchToken .leftBrace then
    let thenPart ← lang |>.block
    if ← matchToken .elseWord then
      if ← matchToken .ifWord then
        let elsePart ← lang |>.ifStatement
        pure (.branch condition (.block thenPart) (some elsePart))
      else
        let _ ← consume .leftBrace "Expect '\x7b' after 'else'."
        let elsePart ← lang |>.block
        pure (.branch condition (.block thenPart) (some (.block elsePart)))
    else pure (.branch condition (.block thenPart) none)
  else
    let thenPart ← lang |>.simpleStatement
    pure (.branch condition thenPart none)
partial_fixpoint

/-- The single statement that may stand in place of a block behind a condition. -/
def Language.simpleStatement (lang : Language) : Reader Stmt := do
  if ← matchToken .returnWord then lang |>.returnStatement true
  else if ← matchToken .printWord then lang |>.printStatement true
  else if ← matchToken .throwWord then lang |>.throwStatement
  else lang |>.expressionStatement
partial_fixpoint

/-- A while loop behind its word. -/
def Language.whileStatement (lang : Language) : Reader Stmt := do
  let _ ← consume .leftParen "Expect '(' after 'while'."
  let condition ← lang |>.expression
  let _ ← consume .rightParen "Expect ')' after while condition."
  let _ ← consume .leftBrace "Expect '\x7b' after while condition."
  let body ← lang |>.block
  pure (.loop condition (.block body))
partial_fixpoint

/-- A for loop behind its word. -/
def Language.forStatement (lang : Language) : Reader Stmt := do
  let _ ← consume .leftParen "Expect '(' after 'for'."
  let init? ← lang |>.forInit
  let condition ←
    if ← check .semicolon then numbered fun id => .constant id (.boolean true)
    else lang |>.expression
  let _ ← consume .semicolon "Expect ';' after loop condition."
  let step? ←
    if ← check .rightParen then pure none
    else do
      let step ← lang |>.expression
      pure (some step)
  let _ ← consume .rightParen "Expect ')' after for clauses."
  let _ ← consume .leftBrace "Expect '\x7b' after for clauses."
  let body ← lang |>.block
  pure (forLoop init? condition step? body)
partial_fixpoint

/-- The first clause of a for loop. -/
def Language.forInit (lang : Language) : Reader (Option Stmt) := do
  if ← matchToken .semicolon then pure none
  else if ← matchToken .varWord then
    let s ← lang |>.varDeclaration
    pure (some s)
  else
    let s ← lang |>.expressionStatement
    pure (some s)
partial_fixpoint

/-- A print statement behind its word. -/
def Language.printStatement (lang : Language) (needsSemicolon : Bool) : Reader Stmt := do
  let value ← lang |>.expression
  if needsSemicolon then
    let _ ← consume .semicolon "Expect ';' after value."
    pure (.print value)
  else pure (.print value)
partial_fixpoint

/-- A return statement behind its word. -/
def Language.returnStatement (lang : Language) (needsSemicolon : Bool) : Reader Stmt := do
  let keyword ← previous
  if needsSemicolon then
    let value? ←
      if ← check .semicolon then pure none
      else do
        let value ← lang |>.expression
        pure (some value)
    let _ ← consume .semicolon "Expect ';' after return value."
    pure (.ret keyword value?)
  else
    let value ← lang |>.expression
    pure (.ret keyword (some value))
partial_fixpoint

/-- A throw statement behind its word. -/
def Language.throwStatement (lang : Language) : Reader Stmt := do
  let keyword ← previous
  let value ← lang |>.expression
  let _ ← consume .semicolon "Expect ';' after throw value."
  pure (.throw keyword value)
partial_fixpoint

/-- A try statement behind its word. -/
def Language.tryStatement (lang : Language) : Reader Stmt := do
  let _ ← consume .leftBrace "Expect '\x7b' after try."
  let body ← lang |>.block
  let handler? ←
    if ← matchToken .catchWord then do
      let handler ← lang |>.catchClause
      pure (some handler)
    else pure none
  let cleanup? ←
    if ← matchToken .finallyWord then do
      let _ ← consume .leftBrace "Expect '\x7b' after finally."
      let cleanup ← lang |>.block
      pure (some cleanup)
    else pure none
  if handler?.isNone && cleanup?.isNone then failHere "Expect catch or finally block."
  else pure (.attempt body (handler?.bind (·.1)) (handler?.map (·.2)) cleanup?)
partial_fixpoint

/-- The handler of a try statement behind the word `catch`: its parameter and its block. -/
def Language.catchClause (lang : Language) : Reader (Option Token × List Stmt) := do
  let _ ← consume .leftParen "Expect '(' after catch."
  let param? ←
    if ← matchToken .identifier then do
      let param ← previous
      pure (some param)
    else pure none
  let _ ← consume .rightParen "Expect ')' after catch parameter."
  let _ ← consume .leftBrace "Expect '\x7b' after catch parameter."
  let body ← lang |>.block
  pure (param?, body)
partial_fixpoint

/-- An expression as a statement. -/
def Language.expressionStatement (lang : Language) : Reader Stmt := do
  let value ← lang |>.expression
  let _ ← consume .semicolon "Expect ';' after expression."
  pure (.expression value)
partial_fixpoint

end

/-- The declarations up to the end of the source, behind those in `statements`. -/
def Language.program (lang : Language) (statements : List Stmt) : Reader (List Stmt) := do
  if ← isAtEnd then pure statements
  else
    let next? ← lang |>.declaration
    lang |>.program (statements ++ next?.toList)
partial_fixpoint

/-- A declaration or statement of a script; one that fails is noted and skipped. -/
def declaration : Reader (Option Stmt) := script.declaration

/-- Parses a list of tokens, numbering expressions from `firstId` on. -/
def parse (firstId : ExprId) (tokens : List Token) : Option (Except Mishap Parsed) :=
  (script.program [] (start firstId tokens)).map fun (outcome, c) =>
    outcome.map fun statements =>
      ⟨if c.errors.isEmpty then .ok statements else .error c.errors, c.nextId⟩

end ScriptEngine.Parser.Position
