import ScriptEngine.Program.Parser.Statement

/-!
# From tokens to programs

The recursion of the grammar is bounded by a depth: a production that is entered again inside
itself has read at least one token in between, so as many levels as there are tokens are enough.
-/

namespace ScriptEngine

namespace Parser

/-- The grammar for nesting up to a given depth. -/
def grammar : Nat → Grammar
  | 0 => ⟨failHere "Expect expression.", failHere "Expect '\x7d' after block."⟩
  | depth + 1 =>
    let inner := grammar depth
    ⟨assignment inner, block inner⟩

/-- A whole program. -/
def program : Parser (List Stmt) := do
  let count ← remaining
  declarationsUpTo (grammar (count + 1)) false count []

end Parser

/-- The outcome of parsing: the statements or every syntax error in order, and the number that
the next expression gets. -/
structure Parsed where
  result : Except (List SyntaxError) (List Stmt)
  nextId : ExprId

/-- Parses a list of tokens, numbering expressions from `firstId` on. -/
def parse (firstId : ExprId) (tokens : List Token) : Parsed :=
  match Parser.program (Parser.start firstId tokens) with
  | .ok statements s =>
    { result := if s.errors.isEmpty then .ok statements else .error s.errors.reverse
      nextId := s.nextId }
  | .error e s => { result := .error (e :: s.errors).reverse, nextId := s.nextId }

end ScriptEngine
