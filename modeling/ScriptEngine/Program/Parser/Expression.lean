import ScriptEngine.Program.Parser.Basic

/-!
# The grammar of expressions

The levels of precedence, loosest first: assignment, `or`, `and`, equality, comparison, sums,
products, powers, unary operators, calls and the primary expressions. Every binary level groups
to the left; assignment groups to the right.
-/

namespace ScriptEngine.Parser

/-- The rest of a level behind its first operand `left`: operators of the level with operands of
the next tighter level, grouped to the left. -/
def chainTail (operators : List TokenKind) (build : ExprId → Expr → Token → Expr → Expr)
    (operand : Parser Expr) : Nat → Expr → Parser Expr
  | 0, left => pure left
  | bound + 1, left => do
    match ← acceptAny? operators with
    | none => pure left
    | some operator => do
      let right ← operand
      chainTail operators build operand bound (build (← fresh) left operator right)

/-- A level of binary operators. -/
def chain (operators : List TokenKind) (build : ExprId → Expr → Token → Expr → Expr)
    (operand : Parser Expr) : Parser Expr := do
  let first ← operand
  chainTail operators build operand (← remaining) first

/-- The operators of an equality. -/
def equalityOperators : List TokenKind := [.bangEqual, .equalEqual]

/-- The operators of a comparison. -/
def comparisonOperators : List TokenKind := [.greater, .greaterEqual, .less, .lessEqual]

/-- The operators of a sum. -/
def termOperators : List TokenKind := [.minus, .plus, .pipe, .ampersand]

/-- The operators of a product. -/
def factorOperators : List TokenKind := [.slash, .star, .percent]

/-- Whether tokens behind a list of names close a parameter list and lead on to an arrow. -/
def closesArrowHead : List Token → Bool
  | close :: arrow :: _ => close.kind = .rightParen && arrow.kind = .arrow
  | _ => false

/-- What follows any number of commas with a name behind each. -/
def afterNames : List Token → List Token
  | comma :: name :: rest =>
    if comma.kind = .comma && name.kind = .identifier then afterNames rest
    else comma :: name :: rest
  | rest => rest

/-- Whether tokens begin with names in parentheses and an arrow. -/
def startsArrow : List Token → Bool
  | [] => false
  | open_ :: rest =>
    open_.kind = .leftParen &&
      match rest with
      | [] => false
      | name :: more =>
        closesArrowHead (if name.kind = .identifier then afterNames more else rest)

/-- The head of an arrow function: its parameters and the arrow. Nothing is read unless such a
head comes next. -/
def arrowHead? : Parser (Option (List Token × Token)) := do
  match ← accept? .arrow with
  | some arrow => pure (some ([], arrow))
  | none =>
    if startsArrow (← get).rest then do
      let _ ← expect .leftParen "Expect '(' before parameters."
      let params ← parameters
      let arrow ← expect .arrow "Expect '->' after parameters."
      pure (some (params, arrow))
    else pure none

/-- An arrow function behind its head. The body is a block, one `return` or `print` without a
semicolon, or an expression whose value is returned. -/
def arrowBody (g : Grammar) (params : List Token) (arrow : Token) : Parser Expr := do
  let body ← (do
    if (← accept? .leftBrace).isSome then g.block
    else if let some keyword ← accept? .returnWord then
      pure [Stmt.ret keyword (some (← g.expression))]
    else if (← accept? .printWord).isSome then pure [Stmt.print (← g.expression)]
    else
      let value ← g.expression
      pure [Stmt.ret ⟨.returnWord, "return", none, arrow.line⟩ (some value)])
  pure (.lambda (← fresh) (.mk (Token.named "anonymous" arrow.line) params body true))

/-- The constant that a number or string token stands for. -/
def tokenConstant (t : Token) : Constant :=
  match t.literal with
  | some (.number x) => .number x
  | some (.string s) => .string s
  | none => .null

/-- One entry of a map: a name and a value. -/
def mapEntry (g : Grammar) : Parser (Token × Expr) := do
  let key ← expect .identifier "Expect property name."
  let _ ← expect .colon "Expect ':' after property name."
  pure (key, ← g.expression)

/-- Adds an entry to a map. If the key is there already, its value is replaced in place. -/
def putEntry (entries : List (Token × Expr)) (entry : Token × Expr) : List (Token × Expr) :=
  if entries.any (·.1.lexeme == entry.1.lexeme) then
    entries.map fun e => if e.1.lexeme == entry.1.lexeme then (e.1, entry.2) else e
  else entries ++ [entry]

/-- Items in brackets or braces behind the opening one: none, or a list with commas. -/
def enclosed {α : Type} (close : TokenKind) (message : String) (item : Nat → Parser α) :
    Parser (List α × Token) := do
  let items ← if ← check close then pure [] else commaList item
  let closing ← expect close message
  pure (items, closing)

/-- A method of a superclass, behind the word `super`. -/
def superAccess (keyword : Token) : Parser Expr := do
  let _ ← expect .leftParen "Expect '(' after super"
  let className ← expect .identifier "Expect superclass name."
  let _ ← expect .rightParen "Expect ')' after superclass name."
  let _ ← expect .dot "Expect '.' after 'super' call."
  let method ← expect .identifier "Expect superclass method name."
  pure (.super (← fresh) keyword className method)

/-- A primary expression that is no arrow function. -/
def primaryTail (g : Grammar) : Parser Expr := do
  if (← accept? .falseWord).isSome then pure (.constant (← fresh) (.boolean false))
  else if (← accept? .trueWord).isSome then pure (.constant (← fresh) (.boolean true))
  else if (← accept? .nullWord).isSome then pure (.constant (← fresh) .null)
  else if let some t ← acceptAny? [.number, .string] then
    pure (.constant (← fresh) (tokenConstant t))
  else if let some keyword ← accept? .superWord then superAccess keyword
  else if let some keyword ← accept? .thisWord then pure (.self (← fresh) keyword)
  else if (← accept? .leftBracket).isSome then
    let (elements, _) ←
      enclosed .rightBracket "Expect ']' after array elements." fun _ => g.expression
    pure (.array (← fresh) elements)
  else if let some name ← accept? .identifier then pure (.reference ⟨← fresh, name⟩)
  else if (← accept? .leftParen).isSome then
    let inner ← g.expression
    let _ ← expect .rightParen "Expect ')' after expression."
    pure (.grouping (← fresh) inner)
  else if (← accept? .leftBrace).isSome then
    let (entries, _) ←
      enclosed .rightBrace "Expect '\x7d' after object properties." fun _ => mapEntry g
    pure (.map (← fresh) (entries.foldl putEntry []))
  else failHere "Expect expression."

/-- A primary expression. -/
def primary (g : Grammar) : Parser Expr := do
  match ← arrowHead? with
  | some (params, arrow) => arrowBody g params arrow
  | none => primaryTail g

/-- The arguments of a call behind the opening parenthesis. -/
def finishCall (g : Grammar) (callee : Expr) : Parser Expr := do
  let (arguments, paren) ← enclosed .rightParen "Expect ')' after arguments." fun count => do
    checkRoom count "Can't have more than 255 arguments."
    g.expression
  pure (.call (← fresh) callee paren arguments)

/-- Calls, properties and indices behind an expression. -/
def callTail (g : Grammar) : Nat → Expr → Parser Expr
  | 0, e => pure e
  | bound + 1, e => do
    if (← accept? .leftParen).isSome then
      callTail g bound (← finishCall g e)
    else if (← accept? .dot).isSome then
      let name ← expect .identifier "Expect property name after '.'."
      callTail g bound (.get (← fresh) e name)
    else if (← accept? .leftBracket).isSome then
      let index ← g.expression
      let bracket ← expect .rightBracket "Expect ']' after array index."
      callTail g bound (.getItem (← fresh) e bracket index)
    else pure e

/-- A primary expression with everything that is called, read or indexed on it. -/
def call (g : Grammar) : Parser Expr := do
  let e ← primary g
  callTail g (← remaining) e

/-- Unary operators in front of a call. -/
def unaryUpTo (g : Grammar) : Nat → Parser Expr
  | 0 => call g
  | bound + 1 => do
    match ← acceptAny? [.bang, .minus] with
    | some operator => do
      let operand ← unaryUpTo g bound
      pure (.unary (← fresh) operator operand)
    | none => call g

/-- The unary level. -/
def unary (g : Grammar) : Parser Expr := do
  unaryUpTo g (← remaining)

/-- The level of powers. -/
def power (g : Grammar) : Parser Expr := chain [.caret] .binary (unary g)

/-- The level of products. -/
def factor (g : Grammar) : Parser Expr := chain factorOperators .binary (power g)

/-- The level of sums. -/
def term (g : Grammar) : Parser Expr := chain termOperators .binary (factor g)

/-- The level of comparisons. -/
def comparison (g : Grammar) : Parser Expr := chain comparisonOperators .binary (term g)

/-- The level of equalities. -/
def equality (g : Grammar) : Parser Expr := chain equalityOperators .binary (comparison g)

/-- The level of `and`. -/
def conjunction (g : Grammar) : Parser Expr := chain [.and] .logical (equality g)

/-- The level of `or`. -/
def disjunction (g : Grammar) : Parser Expr := chain [.or] .logical (conjunction g)

/-- The assignment of `value` to what `target` denotes. Only names, properties and indices can
be assigned to; for anything else an error is noted at the equals sign and the target stands. -/
def assignTo (target : Expr) (equals : Token) (value : Expr) : Parser Expr := do
  match target with
  | .reference ref => pure (.assign (← fresh) ref.name value)
  | .get _ object name => pure (.set (← fresh) object name value)
  | .getItem _ object _ index => pure (.setItem (← fresh) object index equals value)
  | other => do
    note equals "Invalid assignment target."
    pure other

/-- The level of assignments. -/
def assignment (g : Grammar) : Parser Expr := do
  let left ← disjunction g
  match ← accept? .equal with
  | none => pure left
  | some equals => do
    let value ← g.expression
    assignTo left equals value

end ScriptEngine.Parser
