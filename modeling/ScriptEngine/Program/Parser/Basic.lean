import ScriptEngine.Program

/-!
# Reading tokens

The state of a parse and its primitive steps. The tokens still to be read never contain the end
of the source, which is kept apart and answers every look past the last token. A failing step
keeps the state it has reached: the caller goes on from there after noting the error.
-/

namespace ScriptEngine

/-- A syntax error: a message at a token. -/
structure SyntaxError where
  token : Token
  message : String

/-- How far a parse has come. -/
structure ParseState where
  /-- The tokens still to be read, without the end of the source. -/
  rest : List Token
  /-- Their number. -/
  count : Nat
  count_eq : count = rest.length
  /-- The end of the source. -/
  stop : Token
  /-- The errors noted so far, the latest first. -/
  errors : List SyntaxError
  /-- The number of the next expression. -/
  nextId : ExprId

namespace ParseState

/-- The state in which other tokens are still to be read. -/
def withRest (s : ParseState) (rest : List Token) : ParseState :=
  { s with rest := rest, count := rest.length, count_eq := rfl }

/-- The state in which the next token has been read. -/
def tail (s : ParseState) : ParseState :=
  { s with rest := s.rest.tail, count := s.count - 1, count_eq := by simp [s.count_eq] }

end ParseState

/-- A production of the grammar. -/
abbrev Parser := EStateM SyntaxError ParseState

namespace Parser

/-- The start of a parse. The first end token ends the source; without one, the source ends on
the line of its last token. -/
def start (firstId : ExprId) (tokens : List Token) : ParseState :=
  let line := (tokens.getLast?.map (·.line)).getD 1
  let rest := tokens.takeWhile (·.kind ≠ .eof)
  { rest := rest
    count := rest.length
    count_eq := rfl
    stop := (tokens.find? (·.kind = .eof)).getD (Token.endOf line)
    errors := []
    nextId := firstId }

/-- The next token, which may be the end of the source. -/
def peek : Parser Token := do
  let s ← get
  pure (s.rest.head?.getD s.stop)

/-- Whether the next token is of the given kind. -/
def check (kind : TokenKind) : Parser Bool := do
  let s ← get
  pure (s.rest.head?.any (·.kind = kind))

/-- Reads a token of one of the given kinds, if one comes next. -/
def acceptAny? (kinds : List TokenKind) : Parser (Option Token) := do
  let s ← get
  match s.rest with
  | [] => pure none
  | t :: _ =>
    if t.kind ∈ kinds then do
      set s.tail
      pure (some t)
    else pure none

/-- Reads a token of the given kind, if one comes next. -/
def accept? (kind : TokenKind) : Parser (Option Token) :=
  acceptAny? [kind]

/-- Fails at the next token. -/
def failHere {α : Type} (message : String) : Parser α := do
  throw ⟨← peek, message⟩

/-- Reads a token of the given kind or fails at the next token. -/
def expect (kind : TokenKind) (message : String) : Parser Token := do
  match ← accept? kind with
  | some t => pure t
  | none => failHere message

/-- Notes an error and goes on. -/
def note (token : Token) (message : String) : Parser Unit :=
  modify fun s => { s with errors := ⟨token, message⟩ :: s.errors }

/-- A number for a new expression. -/
def fresh : Parser ExprId := do
  let s ← get
  set { s with nextId := s.nextId + 1 }
  pure s.nextId

/-- The number of tokens still to be read. It bounds every loop that reads a token in each
round. -/
def remaining : Parser Nat := do
  pure (← get).count

/-- The items after a first one, each behind a comma. The item parser is told how many items
precede it; `items` holds those read so far, the latest first. -/
def moreItems {α : Type} (item : Nat → Parser α) : Nat → List α → Parser (List α)
  | 0, items => pure items.reverse
  | bound + 1, items => do
    match ← accept? .comma with
    | none => pure items.reverse
    | some _ => do
      let next ← item items.length
      moreItems item bound (next :: items)

/-- At least one item, with commas between the items. -/
def commaList {α : Type} (item : Nat → Parser α) : Parser (List α) := do
  let first ← item 0
  moreItems item (← remaining) [first]

/-- The greatest number of parameters of a function and of arguments of a call. -/
def maxArguments : Nat := 255

/-- Notes an error at the next token if `count` items leave no room for another one. -/
def checkRoom (count : Nat) (message : String) : Parser Unit := do
  if count ≥ maxArguments then note (← peek) message

/-- The kinds of token that begin a statement, where reading resumes after an error. -/
def resumesAt (kind : TokenKind) : Bool :=
  kind ∈ [.classWord, .functionWord, .varWord, .forWord, .ifWord, .whileWord, .printWord,
    .returnWord]

/-- Skips to just behind a semicolon or just before the next statement, where `last` is the
token read last. -/
def skipAfter (last : Token) : List Token → List Token
  | [] => []
  | t :: rest =>
    if last.kind = .semicolon || resumesAt t.kind then t :: rest else skipAfter t rest

/-- Skips the token at which an error arose and everything up to the next statement. -/
def synchronize : List Token → List Token
  | [] => []
  | t :: rest => skipAfter t rest

/-- Runs a production; if it fails, notes the error and skips to the next statement. -/
def recovering {α : Type} (p : Parser α) : Parser (Option α) := fun s =>
  match p s with
  | .ok a s => .ok (some a) s
  | .error e s => .ok none { s.withRest (synchronize s.rest) with errors := e :: s.errors }

/-- The productions on which the others depend recursively. -/
structure Grammar where
  /-- An expression. -/
  expression : Parser Expr
  /-- The statements of a block behind its opening brace, and the closing brace. -/
  block : Parser (List Stmt)

/-- A parameter list behind its opening parenthesis, and the closing one. -/
def parameters : Parser (List Token) := do
  let params ←
    if ← check .rightParen then pure []
    else commaList fun count => do
      checkRoom count "Can't have more than 255 parameters."
      expect .identifier "Expect parameter name."
  let _ ← expect .rightParen "Expect ')' after parameters."
  pure params

end Parser

end ScriptEngine
