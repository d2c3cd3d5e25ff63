import ScriptEngine.Text.Blank

/-!
# Tokens

The words of a program: their kinds, the reserved words, and the token itself with its source
text, its value and the line on which it ends.
-/

namespace ScriptEngine

/-- The kinds of token. -/
inductive TokenKind where
  | leftParen | rightParen | leftBrace | rightBrace | leftBracket | rightBracket
  | comma | dot | colon | semicolon
  | caret | percent | star | slash | plus | minus | pipe | ampersand
  | bang | bangEqual | equal | equalEqual | greater | greaterEqual | less | lessEqual
  | arrow | or | and
  | identifier | string | number
  | trueWord | falseWord | nullWord | varWord | constWord | printWord | ifWord | elseWord
  | whileWord | forWord | functionWord | returnWord | classWord | thisWord | superWord
  | extendsWord | fromWord | importWord | asWord | exportWord | tryWord | catchWord
  | finallyWord | throwWord
  | eof
deriving DecidableEq, Inhabited

/-- The kind of a reserved word. The words `or` and `and` are spellings of operators. -/
def TokenKind.keyword? (word : String) : Option TokenKind :=
  match word with
  | "true" => some .trueWord
  | "false" => some .falseWord
  | "null" => some .nullWord
  | "var" => some .varWord
  | "const" => some .constWord
  | "print" => some .printWord
  | "if" => some .ifWord
  | "else" => some .elseWord
  | "while" => some .whileWord
  | "for" => some .forWord
  | "or" => some .or
  | "and" => some .and
  | "function" => some .functionWord
  | "return" => some .returnWord
  | "class" => some .classWord
  | "this" => some .thisWord
  | "super" => some .superWord
  | "extends" => some .extendsWord
  | "from" => some .fromWord
  | "import" => some .importWord
  | "as" => some .asWord
  | "export" => some .exportWord
  | "try" => some .tryWord
  | "catch" => some .catchWord
  | "finally" => some .finallyWord
  | "throw" => some .throwWord
  | _ => none

/-- The value carried by a number or string token. -/
inductive TokenLiteral where
  | number (value : Float)
  | string (text : String)

/-- A token: `lexeme` is its source text and `line` the line on which it ends. -/
structure Token where
  kind : TokenKind
  lexeme : String
  literal : Option TokenLiteral
  line : Nat

namespace Token

instance : Inhabited Token := ⟨⟨.eof, "", none, 1⟩⟩

/-- An identifier that stands nowhere in the source. -/
def named (name : String) (line : Nat) : Token :=
  ⟨.identifier, name, none, line⟩

/-- The end of the source. -/
def endOf (line : Nat) : Token :=
  ⟨.eof, "", none, line⟩

/-- The text of a string token. A token whose value was removed gives its source text without
the quotes around it. -/
def stringValue (t : Token) : String :=
  match t.literal with
  | some (.string s) => s
  | _ => String.ofList (Text.trimWhile (fun c => c == '\'' || c == '"') t.lexeme.toList)

/-- How a diagnostic names a token. -/
def display (t : Token) : String :=
  if t.kind = .eof then "end" else "'" ++ t.lexeme ++ "'"

end Token

end ScriptEngine
