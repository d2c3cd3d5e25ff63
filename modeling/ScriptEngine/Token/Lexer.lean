import ScriptEngine.Token
import ScriptEngine.Token.Quoted
import ScriptEngine.Decimal.Reader

/-!
# From source text to tokens

Source text is cut into pieces: tokens, blanks, comments, and the stretches that are none of
these. Every piece keeps its text, so the pieces joined together are the source again. The tokens
of a source are those of its pieces with the end of the source behind them, and a source with any
bad piece has no tokens but the list of all its lexical errors.

Main statements: `append_nextPiece` (a piece and what follows it are the text it was cut from) and
`flatMap_text_pieces` (the pieces of a source spell it).
-/

namespace ScriptEngine

/-- Why a stretch of source is no token. -/
inductive LexicalCause where
  | unexpectedCharacter (c : Char)
  | unterminatedString

/-- A lexical error and the line on which it is reported. -/
structure LexicalError where
  cause : LexicalCause
  line : Nat

/-- The text of a lexical error. -/
def LexicalError.message (e : LexicalError) : String :=
  match e.cause with
  | .unexpectedCharacter c => "Unexpected character: " ++ c.toString
  | .unterminatedString => "Unterminated string."

namespace Token

/-- What a piece of source is. -/
inductive PieceKind where
  | token (kind : TokenKind) (literal : Option TokenLiteral)
  | blank
  | comment
  | bad (cause : LexicalCause)

/-- A piece of source: what it is, its text, and the line reached at its end. -/
structure Piece where
  kind : PieceKind
  text : List Char
  line : Nat

namespace Piece

/-- The token that a piece is. -/
def token? (p : Piece) : Option Token :=
  match p.kind with
  | .token kind literal => some ⟨kind, String.ofList p.text, literal, p.line⟩
  | _ => none

/-- The error that a piece is. -/
def error? (p : Piece) : Option LexicalError :=
  match p.kind with
  | .bad cause => some ⟨cause, p.line⟩
  | _ => none

end Piece

/-- Characters that are tokens by themselves. -/
def single? (c : Char) : Option TokenKind :=
  match c with
  | '(' => some .leftParen
  | ')' => some .rightParen
  | '\x7b' => some .leftBrace
  | '\x7d' => some .rightBrace
  | '[' => some .leftBracket
  | ']' => some .rightBracket
  | ',' => some .comma
  | '.' => some .dot
  | ':' => some .colon
  | ';' => some .semicolon
  | '^' => some .caret
  | '%' => some .percent
  | '*' => some .star
  | '+' => some .plus
  | _ => none

/-- Characters that may form a token with the next one: the character they pair with, the kind
of the pair, and the kind of the character alone. -/
def paired? (c : Char) : Option (Char × TokenKind × TokenKind) :=
  match c with
  | '-' => some ('>', .arrow, .minus)
  | '|' => some ('|', .or, .pipe)
  | '&' => some ('&', .and, .ampersand)
  | '!' => some ('=', .bangEqual, .bang)
  | '=' => some ('=', .equalEqual, .equal)
  | '<' => some ('=', .lessEqual, .less)
  | '>' => some ('=', .greaterEqual, .greater)
  | _ => none

/-- Characters that may begin a name. -/
def isNameStart (c : Char) : Bool :=
  c.isAlpha || c == '_'

/-- Characters that may continue a name. -/
def isNameChar (c : Char) : Bool :=
  isNameStart c || c.isDigit

/-- The fraction at the start of a text: a point with at least one digit behind it, and what
follows. -/
def takeFraction : List Char → List Char × List Char
  | '.' :: d :: rest =>
    if d.isDigit then ('.' :: d :: rest.takeWhile Char.isDigit, rest.dropWhile Char.isDigit)
    else ([], '.' :: d :: rest)
  | rest => ([], rest)

/-- The value of a number token: digits, and possibly a point and more digits. -/
def numberValue (text : List Char) : Float :=
  (Decimal.unsigned? text).getD 0

/-- The first piece of the text `c :: rest`, whose first character stands on `line`, and what
follows the piece. -/
def nextPiece (line : Nat) (c : Char) (rest : List Char) : Piece × List Char :=
  match single? c, paired? c with
  | some kind, _ => (⟨.token kind none, [c], line⟩, rest)
  | none, some (second, pair, alone) =>
    match rest with
    | [] => (⟨.token alone none, [c], line⟩, rest)
    | d :: after =>
      if d = second then (⟨.token pair none, [c, d], line⟩, after)
      else (⟨.token alone none, [c], line⟩, rest)
  | none, none =>
    if c = '/' then
      match rest with
      | '/' :: after =>
        (⟨.comment, c :: '/' :: after.takeWhile (· != '\n'), line⟩, after.dropWhile (· != '\n'))
      | _ => (⟨.token .slash none, [c], line⟩, rest)
    else if c = '\n' then (⟨.blank, [c], line + 1⟩, rest)
    else if c = ' ' ∨ c = '\r' ∨ c = '\t' then (⟨.blank, [c], line⟩, rest)
    else if c = '\'' ∨ c = '"' then
      match splitQuoted c rest with
      | some (body, after) =>
        let text := String.ofList (decodeQuoted body)
        (⟨.token .string (some (.string text)), c :: (body ++ [c]), line + lineBreaks body⟩, after)
      | none => (⟨.bad .unterminatedString, c :: rest, line + lineBreaks rest⟩, [])
    else if c.isDigit then
      let whole := c :: rest.takeWhile Char.isDigit
      let fraction := takeFraction (rest.dropWhile Char.isDigit)
      let text := whole ++ fraction.1
      (⟨.token .number (some (.number (numberValue text))), text, line⟩, fraction.2)
    else if isNameStart c then
      let text := c :: rest.takeWhile isNameChar
      let kind := (TokenKind.keyword? (String.ofList text)).getD .identifier
      (⟨.token kind none, text, line⟩, rest.dropWhile isNameChar)
    else (⟨.bad (.unexpectedCharacter c), [c], line⟩, rest)

/-- A fraction and what follows it are the whole. -/
theorem takeFraction_append (s : List Char) : (takeFraction s).1 ++ (takeFraction s).2 = s := by
  unfold takeFraction
  split
  · split <;> simp
  · simp

/-- A piece and what follows it are the text it was cut from. -/
theorem append_nextPiece (line : Nat) (c : Char) (rest : List Char) :
    (nextPiece line c rest).1.text ++ (nextPiece line c rest).2 = c :: rest := by
  unfold nextPiece
  split
  · simp
  · split
    · simp
    · split <;> simp
  · split
    · split <;> simp
    · split
      · simp
      · split
        · simp
        · split
          · split
            · next h => simp [splitQuoted_append h]
            · simp
          · split
            · simp [takeFraction_append]
            · split <;> simp

theorem nextPiece_text_ne_nil (line : Nat) (c : Char) (rest : List Char) :
    (nextPiece line c rest).1.text ≠ [] := by
  unfold nextPiece
  repeat' split
  all_goals simp

/-- Every piece leaves less of the source. -/
theorem length_nextPiece_lt (line : Nat) (c : Char) (rest : List Char) :
    (nextPiece line c rest).2.length < (c :: rest).length := by
  rw [← append_nextPiece line c rest, List.length_append]
  have := List.length_pos_iff.2 (nextPiece_text_ne_nil line c rest)
  omega

/-- The pieces of a text that begins on `line`. -/
def pieces (line : Nat) : List Char → List Piece
  | [] => []
  | c :: rest =>
    let step := nextPiece line c rest
    step.1 :: pieces step.1.line step.2
termination_by s => s.length
decreasing_by exact length_nextPiece_lt line c rest

/-- The pieces of a source spell it. -/
theorem flatMap_text_pieces (line : Nat) (s : List Char) :
    (pieces line s).flatMap (·.text) = s := by
  fun_induction pieces line s with
  | case1 => rfl
  | case2 line c rest step ih => simp [ih, step, append_nextPiece]

/-- The line reached at the end of a text. -/
def lastLine (line : Nat) (ps : List Piece) : Nat :=
  (ps.getLast?.map (·.line)).getD line

/-- The tokens of a source, or all its lexical errors in order. -/
def scan (source : String) : Except (List LexicalError) (List Token) :=
  let ps := pieces 1 source.toList
  match ps.filterMap Piece.error? with
  | [] => .ok (ps.filterMap Piece.token? ++ [Token.endOf (lastLine 1 ps)])
  | errors => .error errors

end Token

end ScriptEngine
